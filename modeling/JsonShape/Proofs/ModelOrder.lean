import JsonShape.Proofs.Canonical
import JsonShape.Proofs.FirstFault

/-!
# Models are defined before they are used

The text for an outline is a module : two imports, a class for each model, and the alias for the
root type. `Pydantic.ModelFile` is such a module as a tree, in which the names that a type hint uses
can be told (`Hint.names`), and `ModelFile.ofOutline` is the one whose text is written
(`text_ofOutline`).

A class binds its name when its statement is run, and a hint inside it is evaluated then. So a
module is `ModelFile.Bound` if each hint uses only names of classes above it, no two classes have
one name, and nothing else in the module binds the name of a class. For inferred outlines this holds
since no record mentions itself, however indirectly (`models_bound_before_use`).
-/

namespace JsonShape

namespace Pydantic

/-! ## Modules -/

/-- The type of a field, or of the whole data. -/
inductive Hint where
  | any
  | bool
  | int
  | float
  | str
  | model (name : String)
  | list (element : Hint)
  | optional (inner : Hint)
deriving DecidableEq

namespace Hint

/-- The hint as it is written. -/
def text : Hint → String
  | .any => "typing.Any"
  | .bool => "bool"
  | .int => "int"
  | .float => "float"
  | .str => "str"
  | .model name => name
  | .list element => "list[" ++ element.text ++ "]"
  | .optional inner => "typing.Optional[" ++ inner.text ++ "]"

/-- Names of the models that the hint uses. -/
def names : Hint → List String
  | .model name => [name]
  | .list element => element.names
  | .optional inner => inner.names
  | _ => []

/-- The hint allows a value to be missing. -/
def isOptional : Hint → Bool
  | .optional _ => true
  | _ => false

/-- The hint for a shape, its records named by `name`. -/
def ofShape (name : Int → String) : Shape → Hint
  | .any => .any
  | .undefined => .any
  | .bool => .bool
  | .int64 => .int
  | .float64 => .float
  | .string => .str
  | .record handle => .model (name handle)
  | .array element => .list (ofShape name element)
  | .optional inner => .optional (ofShape name inner)

theorem text_ofShape (name : Int → String) (s : Shape) :
    (ofShape name s).text = typeHint name s := by
  induction s with
  | array element ih => exact congrArg (fun t => "list[" ++ t ++ "]") ih
  | optional inner ih => exact congrArg (fun t => "typing.Optional[" ++ t ++ "]") ih
  | _ => rfl

theorem names_ofShape (name : Int → String) (s : Shape) :
    (ofShape name s).names = s.handles.map name := by
  induction s with
  | array element ih => exact ih
  | optional inner ih => exact ih
  | _ => rfl

theorem isOptional_ofShape (name : Int → String) (s : Shape) :
    (ofShape name s).isOptional = s.isOptional := by
  cases s <;> rfl

end Hint

/-- A field of a model, with the key that it is an alias for. -/
structure ModelField where
  name : String
  hint : Hint
  key : String

/-- A class. -/
structure Model where
  name : String
  fields : List ModelField

/-- A module of models. -/
structure ModelFile where
  models : List Model
  root : Hint

/-- The field as it is written. -/
def ModelField.line (f : ModelField) : String :=
  "    " ++ f.name ++ ": " ++ f.hint.text ++ " = pydantic.Field(" ++
    (if f.hint.isOptional then "default=None, " else "") ++ "alias=" ++
    Json.asciiString f.key ++ ")"

/-- The class as it is written, after two empty lines. -/
def Model.lines (c : Model) : List String :=
  ["", "", "class " ++ c.name ++ "(pydantic.BaseModel):"] ++ c.fields.map ModelField.line

/-- The module as it is written. -/
def ModelFile.text (m : ModelFile) : String :=
  String.join ((header ++ m.models.flatMap Model.lines ++
    ["", "", rootAlias ++ " = " ++ m.root.text]).map (· ++ "\n"))

/-- The model of a declaration. -/
def Model.ofDeclaration (name : Int → String) (d : Declaration) : Model :=
  ⟨d.name, d.record.map fun f => ⟨f.name, .ofShape name f.shape, f.key⟩⟩

/-- The module for an outline. -/
def ModelFile.ofOutline (x : Outline) : ModelFile :=
  ⟨(dependencyOrder x.declarations).map (.ofDeclaration x.nameAt), .ofShape x.nameAt x.root⟩

theorem lines_ofDeclaration (name : Int → String) (d : Declaration) :
    (Model.ofDeclaration name d).lines = block d.name (d.record.map (lineOf name)) := by
  have hline : ∀ f : Field,
      ModelField.line ⟨f.name, .ofShape name f.shape, f.key⟩ = lineOf name f := fun f => by
    unfold ModelField.line
    rw [Hint.text_ofShape, Hint.isOptional_ofShape, lineOf, lineStart]
  rw [Model.lines, Model.ofDeclaration, List.map_map]
  exact congrArg (block d.name) (List.map_congr_left fun f _ => hline f)

/-- What is written for an outline is the text of its module. -/
theorem text_ofOutline (x : Outline) : (ModelFile.ofOutline x).text = text x := by
  rw [ModelFile.text, ModelFile.ofOutline, text, List.flatMap_map, Hint.text_ofShape]
  simp only [lines_ofDeclaration]

/-! ## Bound names -/

/-- Each name that a hint uses is bound by a class statement above it, and by nothing else in the
module : neither by another class nor by an import, a field or the alias. -/
structure ModelFile.Bound (m : ModelFile) : Prop where
  field : ∀ above c below, m.models = above ++ c :: below → ∀ f ∈ c.fields, ∀ n ∈ f.hint.names,
    n ∈ above.map Model.name
  root : ∀ n ∈ m.root.names, n ∈ m.models.map Model.name
  nodup : (m.models.map Model.name).Nodup
  not_field : ∀ c ∈ m.models, ∀ f ∈ c.fields, f.name ∉ m.models.map Model.name
  not_global : ∀ n ∈ ["typing", "pydantic", rootAlias], n ∉ m.models.map Model.name

end Pydantic

/-- A declared name ends in a digit. -/
theorem RecordTable.declarationName_ne (t : RecordTable) (i : Nat) {word : String}
    (hword : word.toList.getLast?.map Char.isDigit = some false) :
    t.declarationName i ≠ word := by
  rintro rfl
  have hne : (numberText i).toList ≠ [] := by
    intro hnil
    have hlength := congrArg List.length hnil
    have hpos : ¬(i : Int) < 0 := by omega
    simp only [numberText, hpos, if_false, String.toList_ofList, List.length_append,
      List.length_replicate, List.length_nil] at hlength
    omega
  rw [declarationName, String.toList_append, List.getLast?_append_of_ne_nil _ hne] at hword
  obtain ⟨c, hlast, hc⟩ := Option.map_eq_some_iff.1 hword
  cases hc.symm.trans (isDigit_of_mem_numberText (List.mem_of_getLast? hlast))

namespace Outline

open Pydantic

variable {x : Outline} {P : Tree → Prop} {stem : String} {T : Tree}

theorem Shows.nameAt_handle (hx : x.Shows P stem T) {d : Declaration} (hd : d ∈ x.declarations) :
    x.nameAt d.handle = d.name := by
  obtain ⟨e, he, heq, -, hname⟩ := exists_declaration (x := x) (List.mem_map_of_mem hd)
  rw [hname, List.inj_on_of_nodup_map hx.declares.nodup he hd heq]

/-- Every name is the number of a declaration, after the stem. -/
theorem Shows.exists_number (hx : x.Shows P stem T) {n : String}
    (hn : n ∈ x.declarations.map Declaration.name) : ∃ i : Nat, x.table.declarationName i = n := by
  have hds := hx.declarations
  rw [RecordTable.declarations] at hds
  cases hfound : x.table.reachable x.root with
  | error fault => simp [hfound] at hds
  | ok found =>
    rw [hfound] at hds
    rw [RecordTable.names_of_declare hds] at hn
    obtain ⟨i, -, hi⟩ := List.mem_map.1 hn
    exact ⟨i, hi⟩

/-- The module of an outline binds each name before it is used, if no field has the name of a
class. -/
theorem Shows.bound (hx : x.Shows P stem T)
    (hfields : ∀ d ∈ x.declarations, ∀ f ∈ d.record,
      f.name ∉ x.declarations.map Declaration.name) : (ModelFile.ofOutline x).Bound := by
  obtain ⟨hordered, hperm⟩ := dependencyOrder_sound hx.descending
  have hnames : (ModelFile.ofOutline x).models.map Model.name =
      (dependencyOrder x.declarations).map Declaration.name := List.map_map
  have hnamesPerm := hperm.map Declaration.name
  have hmem : ∀ n, n ∈ (ModelFile.ofOutline x).models.map Model.name ↔
      n ∈ x.declarations.map Declaration.name := fun n => by rw [hnames, hnamesPerm.mem_iff]
  constructor
  · intro above c below heq f hf n hn
    obtain ⟨before, rest, hsplit, rfl, hrest⟩ := List.map_eq_append_iff.1 heq
    obtain ⟨d, after, rfl, rfl, rfl⟩ := List.map_eq_cons_iff.1 hrest
    obtain ⟨g, hg, rfl⟩ := List.mem_map.1 hf
    rw [Hint.names_ofShape] at hn
    obtain ⟨k, hk, rfl⟩ := List.mem_map.1 hn
    obtain ⟨e, he, rfl⟩ := List.mem_map.1
      (hordered before d after hsplit k (RecordTable.mem_mentioned hg hk))
    have hdeclared : e ∈ x.declarations := hperm.mem_iff.1 (hsplit ▸ List.mem_append_left _ he)
    rw [hx.nameAt_handle hdeclared, List.map_map]
    exact List.mem_map_of_mem he
  · intro n hn
    rw [ModelFile.ofOutline, Hint.names_ofShape] at hn
    obtain ⟨k, hk, rfl⟩ := List.mem_map.1 hn
    obtain ⟨d, hd, rfl⟩ := List.mem_map.1 (hx.declares.root k hk)
    rw [hmem, hx.nameAt_handle hd]
    exact List.mem_map_of_mem hd
  · rw [hnames, hnamesPerm.nodup_iff]
    exact RecordTable.nodup_names_of_declarations hx.declarations
  · intro c hc f hf
    obtain ⟨d, hd, rfl⟩ := List.mem_map.1 hc
    obtain ⟨g, hg, rfl⟩ := List.mem_map.1 hf
    rw [hmem]
    exact hfields d (hperm.mem_iff.1 hd) g hg
  · intro n hn hbound
    obtain ⟨i, hi⟩ := hx.exists_number ((hmem n).1 hbound)
    have hwords : ∀ w ∈ ["typing", "pydantic", rootAlias],
        w.toList.getLast?.map Char.isDigit = some false := by decide
    exact x.table.declarationName_ne i (hwords n hn) hi

/-! ## Outlines over a table in use -/

/-- What a well-formed shape mentions is well formed. -/
theorem formed_of_mem_handles {t : RecordTable} {named : String → String → Prop}
    {marks outer : Bool} {s : Shape} (hs : (t.tree s).Formed named marks outer) {k : Int}
    (hk : k ∈ s.handles) : (t.tree (.record k)).Formed named marks true := by
  induction s generalizing outer with
  | array element ih => exact ih hs.of_array hk
  | optional inner ih => exact ih hs.of_optional.2.2.2.2 hk
  | record handle => exact List.mem_singleton.1 hk ▸ hs.outermost
  | _ => cases hk

/-- The table may hold other records, but those that a well-formed root leads to are well formed. -/
theorem Shows.formed_of_reaches {named : String → String → Prop} {marks outer : Bool}
    (hx : x.Shows P stem T) (hT : T.Formed named marks outer) {h : Int}
    (hh : x.table.Reaches x.root h) : (x.table.tree (.record h)).Formed named marks true := by
  induction hh with
  | root hh => exact formed_of_mem_handles (hx.tree.symm ▸ hT) hh
  | field hr hget hk ih =>
    obtain ⟨i, r, rfl, hrecord, hget'⟩ := RecordTable.exists_get? (hx.within_of_reaches hr)
    obtain rfl := Option.some.inj (hget'.symm.trans hget)
    rw [RecordTable.tree_record hx.sound.grounded hrecord] at ih
    obtain ⟨f, hf, hk⟩ := List.mem_flatMap.1 hk
    exact formed_of_mem_handles (ih.fields _ (List.mem_map_of_mem hf)).2 hk

theorem Shows.presentable_of_formed {marks outer : Bool} (hx : x.Shows P stem T)
    (hT : T.Formed NamedByKey marks outer) : x.Presentable := by
  refine hx.presentable_of_keys fun d hd => ?_
  have hform := hx.formed_of_reaches hT (hx.mem_handles_iff.1 (List.mem_map_of_mem hd))
  obtain ⟨i, hi, hr⟩ := hx.exists_record hd
  rw [hi, RecordTable.tree_record hx.sound.grounded hr] at hform
  have hnodup := hform.ascending.nodup
  rw [RecordOf.names_map] at hnodup
  exact RecordOf.nodup_keys hnodup fun f hf => (hform.fields _ (List.mem_map_of_mem hf)).1

/-- A text is the text of the outline's module, and then no field has the name of a class. -/
theorem eq_text_of_render (h : x.Presentable) (hperm : (dependencyOrder x.declarations).Perm
      x.declarations) {validate : Bool} {written : String}
    (hrender : (render "pydantic" validate x).1 = .ok written) :
    written = (ModelFile.ofOutline x).text ∧ ∀ d ∈ x.declarations, ∀ f ∈ d.record,
      f.name ∉ x.declarations.map Declaration.name := by
  rw [render_pydantic, write_eq h fun d hd => hperm.mem_iff.1 hd, unlessFault_eq_ok,
    List.findSome?_eq_none_iff] at hrender
  obtain ⟨hnone, rfl⟩ := hrender
  refine ⟨(text_ofOutline x).symm, fun d hd f hf => ?_⟩
  have hmem : f ∈ (dependencyOrder x.declarations).flatMap Declaration.record :=
    List.mem_flatMap.2 ⟨d, hperm.mem_iff.2 hd, hf⟩
  exact (fault?_eq_none_iff.1 (hnone f hmem)).not_class

end Outline

namespace Session

open Pydantic

variable {s : Session} {o : Options} {v : Value} {x : Outline}

/-- For the outline that inference returns, on whatever table, the declarations are put in an order
in which every record comes after those that its fields mention : the search ends within the depth
allowed, which could as well be larger, and lists each declaration once. So the module that is
written binds the name of each class before a hint uses it, and binds it once. -/
theorem models_bound_before_use (h : s.Worked) (hx : ((inferOutline o v).run s).1 = .ok x) :
    (∀ depth, x.declarations.length < depth →
      ((x.declarations.map Declaration.handle).foldl (visit x.declarations depth) {}).listed =
        dependencyOrder x.declarations) ∧
      (dependencyOrder x.declarations).Perm x.declarations ∧
      MentionsEarlier (dependencyOrder x.declarations) ∧
      ∀ validate written, (render "pydantic" validate x).1 = .ok written →
        written = (ModelFile.ofOutline x).text ∧ (ModelFile.ofOutline x).Bound := by
  have hrun : (inferOutline o v).run s = (.ok x, ((inferOutline o v).run s).2) :=
    Prod.ext hx rfl
  obtain ⟨T, hT, -, hshows⟩ :=
    (inferOutline_gives (Tree.inferred_unrestricted o) h.sound v).of_run_ok hrun
  have hform : T.Formed NamedByKey true true :=
    (Tree.inferred_formed fun _ => rfl : Tree.Inferred o _).infer hT
  obtain ⟨hordered, hperm⟩ := dependencyOrder_sound hshows.descending
  refine ⟨fun depth hdepth => dependencyOrder_eq_of_lt hshows.descending hdepth, hperm, hordered,
    fun validate written hrender => ?_⟩
  obtain ⟨htext, hfields⟩ :=
    Outline.eq_text_of_render (hshows.presentable_of_formed hform) hperm hrender
  exact ⟨htext, hshows.bound hfields⟩

/-- An object in an array in an object in an object : four classes, the innermost first. -/
theorem models_bound_before_use_nested :
    ∃ s x, s.Worked ∧ ((inferOutline {} (.object [(.text "a", .object [(.text "b",
        .list [.object [(.text "c", .object [(.text "d", .null)])]])])])).run s).1 = .ok x ∧
      (dependencyOrder x.declarations).map Declaration.name = ["S004", "S003", "S002", "S001"] ∧
      MentionsEarlier (dependencyOrder x.declarations) ∧
      (render "pydantic" true x).1 = .ok (ModelFile.ofOutline x).text ∧
      (ModelFile.ofOutline x).Bound := by
  have hnames : (((inferOutline {} (.object [(.text "a", .object [(.text "b",
      .list [.object [(.text "c", .object [(.text "d", .null)])]])])])).run
        { table := { stem := "S" } }).1.map fun x =>
          ((dependencyOrder x.declarations).map Declaration.name,
            (render "pydantic" true x).1.toOption.isSome)) =
      .ok (["S004", "S003", "S002", "S001"], true) := by
    decide +kernel
  obtain ⟨x, hx, hresult⟩ := map_eq_ok_iff.1 hnames
  obtain ⟨hnames, hrendered⟩ := Prod.mk.inj hresult
  obtain ⟨-, -, hordered, hbound⟩ := models_bound_before_use (Worked.start "S") hx
  cases hrender : (render "pydantic" true x).1 with
  | error fault => simp [hrender, Except.toOption] at hrendered
  | ok written =>
    obtain ⟨rfl, hbound⟩ := hbound true written hrender
    exact ⟨_, x, Worked.start "S", hx, hnames.symm, hordered, hrender, hbound⟩

end Session

end JsonShape
