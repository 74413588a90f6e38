import JsonShape.Proofs.DependencyOrder
import JsonShape.Proofs.Schema

/-!
# Rendering fails at the first field that cannot be written

A field can be written in Go if its name is an exported identifier and its key fits a tag
(`Go.Writable`), and as part of a model if its name is an identifier that shadows nothing
(`Pydantic.Writable`). A fault blames a field for what is wrong with it (`Go.Blames`,
`Pydantic.Blames`).

The writers stop at the first fault they meet. For the outline of a value nothing else stops them :
every record has fields and every record that is mentioned has a name. `Go.write_eq` and
`Pydantic.write_eq` therefore give what is written as a text without failure (`Go.text`,
`Pydantic.text`), unless some field has a fault, and then the first one. `render_failsFirst` says
this of both formats through the fields of the records that the root leads to.
-/

namespace JsonShape

/-! ## First faults -/

/-- The result, unless there is a fault. -/
def unlessFault {ε α : Type} (fault? : Option ε) (a : α) : Except ε α :=
  match fault? with
  | some fault => .error fault
  | none => .ok a

section UnlessFault

variable {ε α β : Type}

theorem unlessFault_eq_ok {fault? : Option ε} {a b : α} :
    unlessFault fault? a = .ok b ↔ fault? = none ∧ a = b := by
  cases fault? <;> simp [unlessFault]

theorem unlessFault_eq_error {fault? : Option ε} {a : α} {fault : ε} :
    unlessFault fault? a = .error fault ↔ fault? = some fault := by
  cases fault? <;> simp [unlessFault]

theorem unlessFault_bind {fault? : Option ε} {a : α} {b : β} {f : α → Except ε β}
    (h : f a = .ok b) : (unlessFault fault? a >>= f) = unlessFault fault? b := by
  cases fault? with
  | some fault => rfl
  | none => exact h

/-- Steps that each may fail stop at the first fault. -/
theorem mapM_unlessFault {f : α → Except ε β} {fault? : α → Option ε} {g : α → β} {xs : List α}
    (h : ∀ a ∈ xs, f a = unlessFault (fault? a) (g a)) :
    xs.mapM f = unlessFault (xs.findSome? fault?) (xs.map g) := by
  induction xs with
  | nil => rfl
  | cons a xs ih =>
    rw [List.mapM_cons, h a (List.mem_cons_self ..), ih fun b hb => h b (List.mem_cons_of_mem _ hb),
      List.findSome?_cons]
    cases fault? a with
    | some fault => rfl
    | none => exact unlessFault_bind (f := fun bs => pure (g a :: bs)) rfl

theorem findSome?_flatMap {f : β → Option ε} {k : α → List β} (xs : List α) :
    (xs.flatMap k).findSome? f = xs.findSome? fun a => (k a).findSome? f := by
  induction xs with
  | nil => rfl
  | cons a xs ih =>
    rw [List.flatMap_cons, List.findSome?_append, ih, List.findSome?_cons]
    cases (k a).findSome? f <;> rfl

end UnlessFault

/-! ## Go -/

namespace Go

open Text

/-- The name can name a field that the JSON package sees. -/
structure ValidName (name : String) : Prop where
  identifier : isIdentifier name = true
  not_keyword : name ∉ keywords
  exported : ∃ c, name.toList.head? = some c ∧ isUpperCase c = true

/-- The key can stand in a tag. -/
structure Taggable (key : String) : Prop where
  ne_empty : key ≠ ""
  chars : ∀ c ∈ key.toList, c ∈ tagPunctuation ∨ isLetter c = true ∨ isDigit c = true

/-- The field can be written. -/
structure Writable (f : Field) : Prop where
  name : ValidName f.name
  key : Taggable f.key

/-- The fault says why the field cannot be written, with its name or, where the name is valid, its
key. -/
inductive Blames (f : Field) : RenderFault → Prop
  | invalidName (h : isIdentifier f.name = false ∨ f.name ∈ keywords) :
    Blames f (.invalidGoName f.name)
  | unexportedName (hid : isIdentifier f.name = true) (hkeyword : f.name ∉ keywords)
    (h : ∀ c, f.name.toList.head? = some c → isUpperCase c = false) :
    Blames f (.unexportedGoName f.name)
  | untaggableKey (hname : ValidName f.name)
    (h : f.key = "" ∨
      ∃ c ∈ f.key.toList, c ∉ tagPunctuation ∧ isLetter c = false ∧ isDigit c = false) :
    Blames f (.untaggableKey f.key)

/-- The tag of a key that can stand in one. -/
def tagText (key : String) : String :=
  "`json:\"" ++ key ++ ",omitempty\"`"

/-- The fault that writing a field gives. -/
def fault? (f : Field) : Option RenderFault :=
  match checkName f.name, tag f.key with
  | .error fault, _ => some fault
  | .ok _, .error fault => some fault
  | .ok _, .ok _ => none

theorem isTagChar_iff {c : Char} :
    isTagChar c = true ↔ c ∈ tagPunctuation ∨ isLetter c = true ∨ isDigit c = true := by
  simp [isTagChar, or_assoc]

theorem checkName_of_validName {name : String} (h : ValidName name) : checkName name = .ok () := by
  obtain ⟨c, hc, hupper⟩ := h.exported
  simp [checkName, h.identifier, h.not_keyword, hc, hupper]

theorem tag_of_taggable {key : String} (h : Taggable key) : tag key = .ok (tagText key) := by
  have hall : key.toList.all isTagChar = true :=
    List.all_eq_true.2 fun c hc => isTagChar_iff.2 (h.chars c hc)
  simp [tag, h.ne_empty, hall, tagText]

theorem Blames.fault?_eq {f : Field} {fault : RenderFault} (h : Blames f fault) :
    fault? f = some fault := by
  cases h with
  | invalidName h =>
    have hname : checkName f.name = .error (.invalidGoName f.name) := by
      rcases h with h | h <;> simp [checkName, h]
    rw [fault?, hname]
  | unexportedName hid hkeyword h =>
    have hupper : (f.name.toList.head?.map isUpperCase).getD false = false := by
      cases hc : f.name.toList.head? with
      | none => rfl
      | some c => exact h c hc
    have hname : checkName f.name = .error (.unexportedGoName f.name) := by
      simp [checkName, hid, hkeyword, hupper]
    rw [fault?, hname]
  | untaggableKey hname h =>
    have htag : tag f.key = .error (.untaggableKey f.key) := by
      rcases h with h | ⟨c, hc, hpunctuation, hletter, hdigit⟩
      · simp [tag, h]
      · have hbad : isTagChar c = false := by simp [isTagChar, hpunctuation, hletter, hdigit]
        have hall : f.key.toList.all isTagChar = false :=
          List.all_eq_false.2 ⟨c, hc, by simp [hbad]⟩
        simp [tag, hall]
    rw [fault?, checkName_of_validName hname, htag]

/-- A field that no fault blames can be written. -/
theorem writable_or_blames (f : Field) : Writable f ∨ ∃ fault, Blames f fault := by
  by_cases hid : isIdentifier f.name = true ∧ f.name ∉ keywords
  · by_cases hexported : ∃ c, f.name.toList.head? = some c ∧ isUpperCase c = true
    · have hname : ValidName f.name := ⟨hid.1, hid.2, hexported⟩
      by_cases hkey : Taggable f.key
      · exact Or.inl ⟨hname, hkey⟩
      · refine Or.inr ⟨_, .untaggableKey hname (or_iff_not_imp_left.2 fun hne => ?_)⟩
        by_contra hall
        refine hkey ⟨hne, fun c hc => ?_⟩
        by_contra hbad
        simp only [not_or, Bool.not_eq_true] at hbad
        exact hall ⟨c, hc, hbad⟩
    · refine Or.inr ⟨_, .unexportedName hid.1 hid.2 fun c hc => ?_⟩
      exact Bool.eq_false_iff.2 fun hupper => hexported ⟨c, hc, hupper⟩
  · refine Or.inr ⟨_, .invalidName ?_⟩
    rwa [not_and_or, Bool.not_eq_true, not_not] at hid

theorem fault?_eq_none_iff {f : Field} : fault? f = none ↔ Writable f := by
  constructor
  · intro h
    refine (writable_or_blames f).resolve_right fun ⟨fault, hblames⟩ => ?_
    cases h.symm.trans hblames.fault?_eq
  · rintro ⟨hname, hkey⟩
    rw [fault?, checkName_of_validName hname, tag_of_taggable hkey]

theorem fault?_eq_some_iff {f : Field} {fault : RenderFault} :
    fault? f = some fault ↔ Blames f fault := by
  refine ⟨fun h => ?_, Blames.fault?_eq⟩
  rcases writable_or_blames f with hwritable | ⟨other, hblames⟩
  · cases (fault?_eq_none_iff.2 hwritable).symm.trans h
  · obtain rfl := Option.some.inj (hblames.fault?_eq.symm.trans h)
    exact hblames

/-- The fault is reported as one of this format, with the text that it blames. -/
theorem Blames.report {f : Field} {fault : RenderFault} (h : Blames f fault) :
    ∃ message text, (text = f.name ∨ text = f.key) ∧
      fault.report? = some (.render message (.text "go") (.text text)) := by
  cases h with
  | invalidName => exact ⟨_, _, Or.inl rfl, rfl⟩
  | unexportedName => exact ⟨_, _, Or.inl rfl, rfl⟩
  | untaggableKey => exact ⟨_, _, Or.inr rfl, rfl⟩

/-! ### The text -/

/-- The type of a shape, its records named by `name`. -/
def typeOf (name : Int → String) : Shape → String
  | .any => "any"
  | .undefined => "struct\x7b\x7d"
  | .bool => "bool"
  | .int64 => "int64"
  | .float64 => "float64"
  | .string => "string"
  | .record handle => "*" ++ name handle
  | .array element => "[]" ++ typeOf name element
  | .optional inner => if isNilable inner then typeOf name inner else "*" ++ typeOf name inner

/-- The columns of a field that can be written. -/
def rowOf (name : Int → String) (f : Field) : Row :=
  ⟨f.name, typeOf name f.shape, tagText f.key⟩

/-- The lines of a declaration with the given rows. -/
def block (name : String) (rows : List Row) : List String :=
  ["", "type " ++ name ++ " struct \x7b"] ++
    rows.map (fun r => "\t" ++ padded (width (rows.map Row.name)) r.name ++ " " ++
      padded (width (rows.map Row.type)) r.type ++ " " ++ r.tag) ++ ["\x7d"]

/-- The declarations of an outline whose fields can all be written. -/
def text (x : Outline) : String :=
  unlines (("var data " ++ (if x.root = .undefined then "any" else typeOf x.nameAt x.root) ++
    " // Unmarshal into this type.") ::
      x.declarations.flatMap fun d => block d.name (d.record.map (rowOf x.nameAt)))

variable {x : Outline}

theorem typeText_eq_ok {s : Shape} (h : ∀ k ∈ s.handles, k ∈ x.handles) :
    typeText x s = .ok (typeOf x.nameAt s) := by
  induction s with
  | record handle =>
    obtain ⟨d, -, -, hname, hat⟩ := Outline.exists_declaration (h handle (by simp [Shape.handles]))
    rw [typeText, hname, typeOf, hat]
  | array element ih => rw [typeText, ih h, typeOf]
  | optional inner ih => rw [typeText, ih h, typeOf]
  | _ => rfl

theorem row_eq {f : Field} (h : ∀ k ∈ f.shape.handles, k ∈ x.handles) :
    row x f = unlessFault (fault? f) (rowOf x.nameAt f) := by
  unfold row fault?
  simp only [typeText_eq_ok h]
  cases checkName f.name with
  | error fault => rfl
  | ok =>
    cases htag : tag f.key with
    | error fault => rfl
    | ok t =>
      have hkey : t = tagText f.key := by
        unfold tag at htag
        split at htag
        · cases htag
        · exact (Except.ok.inj htag).symm
      rw [hkey]
      rfl

theorem declarationLines_eq {d : Declaration} (hne : d.record ≠ [])
    (h : ∀ f ∈ d.record, ∀ k ∈ f.shape.handles, k ∈ x.handles) :
    declarationLines x d = unlessFault (d.record.findSome? fault?)
      (block d.name (d.record.map (rowOf x.nameAt))) := by
  have hempty : (d.record.map (rowOf x.nameAt)).isEmpty = false := by simpa using hne
  rw [declarationLines, mapM_unlessFault fun f hf => row_eq (h f hf)]
  refine unlessFault_bind ?_
  rw [hempty]
  rfl

/-- The text of an outline, or the fault of the first field that cannot be written. -/
theorem write_eq (h : x.Presentable) (hne : ∀ d ∈ x.declarations, d.record ≠ []) :
    write x =
      unlessFault ((x.declarations.flatMap Declaration.record).findSome? fault?) (text x) := by
  have hroot : rootType x =
      .ok (if x.root = .undefined then "any" else typeOf x.nameAt x.root) := by
    rw [rootType, typeText_eq_ok h.root_declared]
    split <;> rfl
  rw [write, hroot, findSome?_flatMap, mapM_unlessFault fun d hd =>
    declarationLines_eq (hne d hd) (h.field_declared d hd)]
  exact unlessFault_bind rfl

end Go

/-! ## Models -/

namespace Pydantic

open Text

/-- The field can be written beside classes of the given names. -/
structure Writable (classNames : List String) (f : Field) : Prop where
  identifier : isIdentifier f.name = true
  not_keyword : f.name ∉ keywords
  not_class : f.name ∉ classNames
  ne_root : f.name ≠ rootAlias

/-- The fault says why the field cannot be written, with its name. -/
inductive Blames (classNames : List String) (f : Field) : RenderFault → Prop
  | invalidName (h : isIdentifier f.name = false ∨ f.name ∈ keywords) :
    Blames classNames f (.invalidPythonName f.name)
  | shadowedName (hid : isIdentifier f.name = true) (hkeyword : f.name ∉ keywords)
    (h : f.name ∈ classNames ∨ f.name = rootAlias) :
    Blames classNames f (.shadowedModelName f.name)

/-- The fault that writing a field gives. -/
def fault? (classNames : List String) (f : Field) : Option RenderFault :=
  match checkName classNames f.name with
  | .error fault => some fault
  | .ok _ => none

variable {classNames : List String} {f : Field} {fault : RenderFault}

theorem Blames.fault?_eq (h : Blames classNames f fault) : fault? classNames f = some fault := by
  cases h with
  | invalidName h => rcases h with h | h <;> simp [fault?, checkName, h]
  | shadowedName hid hkeyword h =>
    have hvalid : (!isIdentifier f.name || keywords.contains f.name) = false := by
      simp [hid, hkeyword]
    have hshadows : (classNames.contains f.name || f.name == rootAlias) = true := by simpa using h
    simp only [fault?, checkName, hvalid, hshadows]
    rfl

/-- A field that no fault blames can be written. -/
theorem writable_or_blames (classNames : List String) (f : Field) :
    Writable classNames f ∨ ∃ fault, Blames classNames f fault := by
  by_cases hid : isIdentifier f.name = true ∧ f.name ∉ keywords
  · by_cases hshadows : f.name ∈ classNames ∨ f.name = rootAlias
    · exact Or.inr ⟨_, .shadowedName hid.1 hid.2 hshadows⟩
    · rw [not_or] at hshadows
      exact Or.inl ⟨hid.1, hid.2, hshadows.1, hshadows.2⟩
  · refine Or.inr ⟨_, .invalidName ?_⟩
    rwa [not_and_or, Bool.not_eq_true, not_not] at hid

theorem fault?_eq_none_iff : fault? classNames f = none ↔ Writable classNames f := by
  constructor
  · intro h
    refine (writable_or_blames classNames f).resolve_right fun ⟨fault, hblames⟩ => ?_
    cases h.symm.trans hblames.fault?_eq
  · intro h
    simp [fault?, checkName, h.identifier, h.not_keyword, h.not_class, h.ne_root]

theorem fault?_eq_some_iff : fault? classNames f = some fault ↔ Blames classNames f fault := by
  refine ⟨fun h => ?_, Blames.fault?_eq⟩
  rcases writable_or_blames classNames f with hwritable | ⟨other, hblames⟩
  · cases (fault?_eq_none_iff.2 hwritable).symm.trans h
  · obtain rfl := Option.some.inj (hblames.fault?_eq.symm.trans h)
    exact hblames

/-- The fault is reported as one of this format, with the name that it blames. -/
theorem Blames.report (h : Blames classNames f fault) :
    ∃ message, fault.report? = some (.render message (.text "pydantic") (.text f.name)) := by
  cases h with
  | invalidName => exact ⟨_, rfl⟩
  | shadowedName => exact ⟨_, rfl⟩

/-! ### The text -/

/-- The annotation of a shape, its records named by `name`. -/
def typeHint (name : Int → String) : Shape → String
  | .any => "typing.Any"
  | .undefined => "typing.Any"
  | .bool => "bool"
  | .int64 => "int"
  | .float64 => "float"
  | .string => "str"
  | .record handle => name handle
  | .array element => "list[" ++ typeHint name element ++ "]"
  | .optional inner => "typing.Optional[" ++ typeHint name inner ++ "]"

/-- The line of a field that can be written, up to its alias. -/
def lineStart (name : Int → String) (f : Field) : String :=
  "    " ++ f.name ++ ": " ++ typeHint name f.shape ++ " = pydantic.Field(" ++
    if f.shape.isOptional then "default=None, " else ""

/-- The line of a field that can be written. -/
def lineOf (name : Int → String) (f : Field) : String :=
  lineStart name f ++ "alias=" ++ Json.asciiString f.key ++ ")"

/-- The lines of a class with the given lines of fields. -/
def block (name : String) (lines : List String) : List String :=
  ["", "", "class " ++ name ++ "(pydantic.BaseModel):"] ++ lines

/-- The models of an outline whose fields can all be written. -/
def text (x : Outline) : String :=
  String.join ((header ++
    (dependencyOrder x.declarations).flatMap
      (fun d => block d.name (d.record.map (lineOf x.nameAt))) ++
    ["", "", rootAlias ++ " = " ++ typeHint x.nameAt x.root]).map (· ++ "\n"))

variable {x : Outline}

theorem typeText_eq_ok {s : Shape} (h : ∀ k ∈ s.handles, k ∈ x.handles) :
    typeText x s = .ok (typeHint x.nameAt s) := by
  induction s with
  | record handle =>
    obtain ⟨d, -, -, hname, hat⟩ := Outline.exists_declaration (h handle (by simp [Shape.handles]))
    change typeText x (.record handle) = .ok (x.nameAt handle)
    rw [typeText, hname, hat]
  | array element ih =>
    rw [typeText, ih h]
    rfl
  | optional inner ih =>
    rw [typeText, ih h]
    rfl
  | _ => rfl

theorem fieldLine_eq (h : ∀ k ∈ f.shape.handles, k ∈ x.handles) :
    fieldLine x classNames f = unlessFault (fault? classNames f) (lineOf x.nameAt f) := by
  unfold fieldLine fault?
  simp only [typeText_eq_ok h]
  cases checkName classNames f.name with
  | error fault => rfl
  | ok =>
    simp only [lineOf, lineStart, String.append_assoc]
    rfl

theorem classLines_eq {d : Declaration}
    (h : ∀ f ∈ d.record, ∀ k ∈ f.shape.handles, k ∈ x.handles) :
    classLines x classNames d = unlessFault (d.record.findSome? (fault? classNames))
      (block d.name (d.record.map (lineOf x.nameAt))) := by
  rw [classLines, mapM_unlessFault fun f hf => fieldLine_eq (h f hf)]
  exact unlessFault_bind rfl

/-- The text of an outline, or the fault of the first field that cannot be written. -/
theorem write_eq (h : x.Presentable) (hmem : ∀ d ∈ dependencyOrder x.declarations,
      d ∈ x.declarations) :
    write x = unlessFault (((dependencyOrder x.declarations).flatMap Declaration.record).findSome?
      (fault? (x.declarations.map Declaration.name))) (text x) := by
  rw [write, findSome?_flatMap, mapM_unlessFault fun d hd =>
    classLines_eq (h.field_declared d (hmem d hd)), typeText_eq_ok h.root_declared]
  exact unlessFault_bind rfl

end Pydantic

/-! ## Outlines of values -/

namespace Outline

/-- The field stands in a record that the root leads to. -/
def ReachesField (x : Outline) (f : Field) : Prop :=
  ∃ h r, x.table.Reaches x.root h ∧ x.table.get? h = some r ∧ f ∈ r

/-- Rendering returns a text exactly if every field that the root leads to can be written. Otherwise
it fails with a fault that blames the first field that cannot, in the given order of declarations,
and that is reported with the name or the key of that field. -/
structure FailsFirst (x : Outline) (format : String) (validate : Bool) (Writable : Field → Prop)
    (Blames : Field → RenderFault → Prop) (order : List Declaration) : Prop where
  returns_iff : (∃ text, (render format validate x).1 = .ok text) ↔
    ∀ f, x.ReachesField f → Writable f
  fails_iff : ∀ fault, (render format validate x).1 = .error fault ↔
    ∃ before f after, order.flatMap Declaration.record = before ++ f :: after ∧
      (∀ g ∈ before, Writable g) ∧ ¬Writable f ∧ Blames f fault
  reported : ∀ f fault, Blames f fault → ∃ message text, (text = f.name ∨ text = f.key) ∧
    fault.report? = some (.render message (.text format) (.text text))

variable {x : Outline} {P : Tree → Prop} {stem : String} {T : Tree}

theorem render_go (x : Outline) (validate : Bool) : (render "go" validate x).1 = Go.write x := by
  have hformat : OutputFormat.ofName? "go" = some .go := rfl
  simp only [render, hformat, OutputFormat.write, OutputFormat.check]
  cases Go.write x <;> cases validate <;> rfl

theorem render_pydantic (x : Outline) (validate : Bool) :
    (render "pydantic" validate x).1 = Pydantic.write x := by
  have hformat : OutputFormat.ofName? "pydantic" = some .pydantic := rfl
  simp only [render, hformat, OutputFormat.write, OutputFormat.check]
  cases Pydantic.write x <;> cases validate <;> rfl

/-- Rendering that gives the first fault of a field, if any has one, fails first at that field. -/
theorem failsFirst_of_render {format : String} {validate : Bool} {Writable : Field → Prop}
    {Blames : Field → RenderFault → Prop} {order : List Declaration}
    {fault? : Field → Option RenderFault} {text : String}
    (hrender : (render format validate x).1 =
      unlessFault ((order.flatMap Declaration.record).findSome? fault?) text)
    (hfields : ∀ f, f ∈ order.flatMap Declaration.record ↔ x.ReachesField f)
    (hnone : ∀ f, fault? f = none ↔ Writable f)
    (hsome : ∀ f fault, fault? f = some fault ↔ Blames f fault)
    (hreported : ∀ f fault, Blames f fault → ∃ message text, (text = f.name ∨ text = f.key) ∧
      fault.report? = some (.render message (.text format) (.text text))) :
    x.FailsFirst format validate Writable Blames order where
  returns_iff := by
    simp only [hrender, unlessFault_eq_ok, List.findSome?_eq_none_iff, hfields, hnone,
      exists_and_left, exists_eq', and_true]
  fails_iff := by
    intro fault
    rw [hrender, unlessFault_eq_error, List.findSome?_eq_some_iff]
    simp only [hnone, hsome]
    constructor
    · rintro ⟨before, f, after, heq, hblames, hbefore⟩
      refine ⟨before, f, after, heq, hbefore, fun hwritable => ?_, hblames⟩
      cases ((hnone f).2 hwritable).symm.trans ((hsome f fault).2 hblames)
    · rintro ⟨before, f, after, heq, hbefore, -, hblames⟩
      exact ⟨before, f, after, heq, hblames, hbefore⟩
  reported := hreported

/-- What the root leads to is declared, and nothing else. -/
theorem Shows.mem_handles_iff (hx : x.Shows P stem T) {h : Int} :
    h ∈ x.handles ↔ x.table.Reaches x.root h :=
  RecordTable.mem_handles_iff_reaches hx.sound.grounded.closed
    (RecordTable.inRange_of_within hx.within) hx.declarations

theorem Shows.mem_fields_iff (hx : x.Shows P stem T) (f : Field) :
    f ∈ x.declarations.flatMap Declaration.record ↔ x.ReachesField f := by
  have hdeclares := hx.declares
  rw [List.mem_flatMap]
  constructor
  · rintro ⟨d, hd, hf⟩
    have hreaches := hx.mem_handles_iff.1 (List.mem_map_of_mem hd)
    exact ⟨d.handle, d.record, hreaches, hdeclares.record d hd, hf⟩
  · rintro ⟨h, r, hreaches, hget, hf⟩
    obtain ⟨d, hd, rfl⟩ := List.mem_map.1 (hx.mem_handles_iff.2 hreaches)
    obtain rfl := Option.some.inj ((hdeclares.record d hd).symm.trans hget)
    exact ⟨d, hd, hf⟩

/-- Handles that the root leads to are given out by the table. -/
theorem Shows.within_of_reaches (hx : x.Shows P stem T) {h : Int}
    (hh : x.table.Reaches x.root h) : (Shape.record h).Within x.table.size := by
  induction hh with
  | root hh => exact Shape.within_record.2 (hx.within _ hh)
  | field _ hget hk ih =>
    obtain ⟨i, r, rfl, hr, hget'⟩ := RecordTable.exists_get? ih
    obtain rfl := Option.some.inj (hget'.symm.trans hget)
    obtain ⟨f, hf, hk⟩ := List.mem_flatMap.1 hk
    exact Shape.within_record.2 (hx.sound.grounded.within hr hf _ hk)

/-- A declaration carries the record that the table holds at its handle. -/
theorem Shows.exists_record (hx : x.Shows P stem T) {d : Declaration} (hd : d ∈ x.declarations) :
    ∃ i : Nat, d.handle = i ∧ x.table.records[i]? = some d.record := by
  have hwithin := hx.within_of_reaches (hx.mem_handles_iff.1 (List.mem_map_of_mem hd))
  obtain ⟨i, r, hi, hr, hget⟩ := RecordTable.exists_get? hwithin
  obtain rfl := Option.some.inj (hget.symm.trans (hx.declares.record d hd))
  exact ⟨i, hi, hr⟩

theorem Shows.descending (hx : x.Shows P stem T) : Pydantic.Descending x.declarations where
  nodup := hx.declares.nodup
  declared := hx.declares.mentioned
  smaller := by
    intro d hd k hk
    obtain ⟨i, hi, hr⟩ := hx.exists_record hd
    obtain ⟨f, hf, hk⟩ := List.mem_flatMap.1 hk
    exact hi ▸ (hx.sound.grounded i d.record hr f hf k hk).2

/-- A list of declarations with one field in all has that field. -/
theorem exists_field_of_map_eq {α : Type} {g : Field → α} {a : α} {ds : List Declaration}
    (h : [[a]] = ds.map fun d => d.record.map g) : ∃ d ∈ ds, ∃ f ∈ d.record, g f = a := by
  have hrecord : [a] ∈ ds.map fun d => d.record.map g := h ▸ List.mem_singleton_self _
  obtain ⟨d, hd, hmap⟩ := List.mem_map.1 hrecord
  have hfield : a ∈ d.record.map g := hmap ▸ List.mem_singleton_self _
  obtain ⟨f, hf, hg⟩ := List.mem_map.1 hfield
  exact ⟨d, hd, f, hf, hg⟩

theorem Shows.wellFormed {marks : Bool} (hx : x.Shows (Tree.Formed NamedByKey marks true) stem T)
    {d : Declaration} (hd : d ∈ x.declarations) : ∃ i : Nat, Record.WellFormed i d.record := by
  obtain ⟨i, -, hr⟩ := hx.exists_record hd
  exact ⟨i, hx.sound.wellFormed hr⟩

end Outline

/-- The outline of a value is rendered in Go and as models, or rendering fails at the first field
that cannot be written : for Go in the order of declarations, for models in an order in which each
declaration comes after those it mentions. Nothing else can stop it, since every declared record has
fields, sorted by name, and every record that they mention has a name. -/
theorem render_failsFirst {o : Options} {v : Value} {x : Outline} (h : (inferValue o v).1 = .ok x)
    (validate : Bool) :
    x.FailsFirst "go" validate Go.Writable Go.Blames x.declarations ∧
      x.FailsFirst "pydantic" validate (Pydantic.Writable (x.declarations.map Declaration.name))
        (Pydantic.Blames (x.declarations.map Declaration.name))
        (Pydantic.dependencyOrder x.declarations) ∧
      x.table.declarations x.root = .ok x.declarations ∧
      MentionsEarlier (Pydantic.dependencyOrder x.declarations) ∧
      (Pydantic.dependencyOrder x.declarations).Perm x.declarations ∧
      ∀ d ∈ x.declarations, d.record ≠ [] ∧ d.record.names.Pairwise (· < ·) ∧
        ∀ k ∈ RecordTable.mentioned d.record, ∃ name, x.nameOf? k = some name := by
  obtain ⟨T, -, hx⟩ := exists_tree_of_inferValue h
  obtain ⟨hordered, hperm⟩ := Pydantic.dependencyOrder_sound hx.descending
  have hgo := Go.write_eq hx.presentable fun d hd => (hx.wellFormed hd).choose_spec.ne_nil
  have hpydantic := Pydantic.write_eq hx.presentable fun d hd => hperm.mem_iff.1 hd
  refine ⟨?_, ?_, hx.declarations, hordered, hperm, fun d hd => ?_⟩
  · exact Outline.failsFirst_of_render ((x.render_go validate).trans hgo) hx.mem_fields_iff
      (fun _ => Go.fault?_eq_none_iff) (fun _ _ => Go.fault?_eq_some_iff)
      fun _ _ hblames => hblames.report
  · refine Outline.failsFirst_of_render ((x.render_pydantic validate).trans hpydantic)
      (fun f => ?_) (fun _ => Pydantic.fault?_eq_none_iff) (fun _ _ => Pydantic.fault?_eq_some_iff)
      fun f _ hblames => ?_
    · rw [← hx.mem_fields_iff]
      exact (hperm.flatMap_right _).mem_iff
    · obtain ⟨message, hmessage⟩ := hblames.report
      exact ⟨message, f.name, Or.inl rfl, hmessage⟩
  · obtain ⟨i, hrecord⟩ := hx.wellFormed hd
    refine ⟨hrecord.ne_nil, hrecord.names_ascending, fun k hk => ?_⟩
    obtain ⟨e, -, -, hname, -⟩ := Outline.exists_declaration (hx.declares.mentioned d hd k hk)
    exact ⟨e.name, hname⟩

/-- A nested object whose inner key begins with a digit, which no format takes for a name. -/
theorem render_failsFirst_digit_first :
    ∃ x, (inferValue {} (.object [(.text "a", .object [(.text "1x", .null)])])).1 = .ok x ∧
      (render "go" true x).1 = .error (.invalidGoName "1X") ∧
      (render "pydantic" true x).1 = .error (.invalidPythonName "1X") ∧
      x.FailsFirst "go" true Go.Writable Go.Blames x.declarations ∧
      x.FailsFirst "pydantic" true (Pydantic.Writable (x.declarations.map Declaration.name))
        (Pydantic.Blames (x.declarations.map Declaration.name))
        (Pydantic.dependencyOrder x.declarations) := by
  have hrender : (inferValue {} (.object [(.text "a", .object [(.text "1x", .null)])])).1.map
      (fun x => ((render "go" true x).1, (render "pydantic" true x).1)) =
        .ok (.error (.invalidGoName "1X"), .error (.invalidPythonName "1X")) := by
    decide +kernel
  obtain ⟨x, hx, hfaults⟩ := map_eq_ok_iff.1 hrender
  obtain ⟨hgo, hpydantic⟩ := Prod.mk.inj hfaults
  have hfirst := render_failsFirst hx true
  exact ⟨x, hx, hgo.symm, hpydantic.symm, hfirst.1, hfirst.2.1⟩

end JsonShape
