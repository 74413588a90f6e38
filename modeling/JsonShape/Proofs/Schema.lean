import JsonShape.Proofs.JsonText
import JsonShape.Proofs.TreeRender

/-!
# The schema of an inferred outline

What a schema needs of its outline is little (`Outline.Presentable`) : the declared names differ, so
do the keys of each record, and every record that is referred to is declared. Inference gives such
outlines (`Outline.Shows.presentable`), since names are numbered and the table is closed.

For a presentable outline `build` returns `JsonSchema.schemaTree`, written without failure. Its
keywords are followed into every schema inside it (`Json.Subschema`), which shows that it is read
back from its text, meets the draft's own schema and refers to its own definitions only.
-/

namespace JsonShape

/-! ## Names of declarations -/

namespace RecordTable

variable {t : RecordTable}

/-- The digits of a declaration's number, leading zeros included, stand for the number. -/
theorem ofDigitChars_numberText (i : Nat) : Nat.ofDigitChars 10 (numberText i).toList 0 = i := by
  have hpos : ¬(i : Int) < 0 := by omega
  simp only [numberText, hpos, if_false, String.toList_ofList, Int.natAbs_natCast]
  rw [Nat.ofDigitChars_append, Nat.ofDigitChars_replicate_zero, Nat.mul_zero,
    Nat.toString_eq_ofList_toDigits, String.toList_ofList, Nat.ofDigitChars_ten_toDigits]

theorem isDigit_of_mem_numberText {i : Nat} {c : Char} (hc : c ∈ (numberText i).toList) :
    c.isDigit = true := by
  have hpos : ¬(i : Int) < 0 := by omega
  simp only [numberText, hpos, if_false, String.toList_ofList, Int.natAbs_natCast,
    List.mem_append, List.mem_replicate] at hc
  rcases hc with ⟨-, rfl⟩ | hc
  · rfl
  · rw [Nat.toString_eq_ofList_toDigits, String.toList_ofList] at hc
    exact Nat.isDigit_of_mem_toDigits (by decide) (by decide) hc

theorem declarationName_injective (t : RecordTable) :
    Function.Injective fun i : Nat => t.declarationName i := by
  intro i j h
  have hdigits : (numberText i).toList = (numberText j).toList := by
    have := congrArg String.toList h
    simpa [declarationName] using this
  rw [← ofDigitChars_numberText i, hdigits, ofDigitChars_numberText]

/-- Declarations are numbered in order. -/
theorem names_of_declare {found : List Int} {index : Nat} {ds : List Declaration}
    (h : t.declare index found = .ok ds) :
    ds.map Declaration.name =
      (List.range' index found.length).map fun i : Nat => t.declarationName i := by
  induction found generalizing index ds with
  | nil =>
    obtain rfl := Except.ok.inj h
    rfl
  | cons handle found ih =>
    rw [declare] at h
    cases hr : t.get? handle with
    | none => simp [hr] at h
    | some r =>
      cases hrest : t.declare (index + 1) found with
      | error fault => simp [hr, hrest] at h
      | ok rest =>
        simp only [hr, hrest] at h
        obtain rfl := Except.ok.inj h
        rw [List.map_cons, ih hrest]
        rfl

theorem nodup_names_of_declarations {root : Shape} {ds : List Declaration}
    (h : t.declarations root = .ok ds) : (ds.map Declaration.name).Nodup := by
  rw [declarations] at h
  cases hfound : t.reachable root with
  | error fault => simp [hfound] at h
  | ok found =>
    rw [hfound] at h
    rw [names_of_declare h]
    exact List.Nodup.map t.declarationName_injective List.nodup_range'

end RecordTable

/-! ## Outlines that have a schema -/

/-- Declared names differ, so do the keys of a record, and all that is referred to is declared. -/
structure Outline.Presentable (x : Outline) : Prop where
  names_nodup : (x.declarations.map Declaration.name).Nodup
  keys_nodup : ∀ d ∈ x.declarations, (d.record.map FieldOf.key).Nodup
  root_declared : ∀ h ∈ x.root.handles, h ∈ x.handles
  field_declared : ∀ d ∈ x.declarations, ∀ f ∈ d.record, ∀ h ∈ f.shape.handles,
    h ∈ x.handles

namespace Outline

variable {x : Outline} {stem : String} {T : Tree}

/-- What is declared is the root's records, each once, and all that they mention. -/
theorem Shows.declares {P : Tree → Prop} (hx : x.Shows P stem T) :
    x.table.Declares x.root x.declarations := by
  obtain ⟨ds, hds, hdeclares⟩ := RecordTable.declarations_ok hx.sound.grounded.closed
    (RecordTable.inRange_of_within hx.within)
  obtain rfl := Except.ok.inj (hx.declarations.symm.trans hds)
  exact hdeclares

theorem Shows.presentable_of_keys {P : Tree → Prop} (hx : x.Shows P stem T)
    (hkeys : ∀ d ∈ x.declarations, (d.record.map FieldOf.key).Nodup) : x.Presentable where
  names_nodup := RecordTable.nodup_names_of_declarations hx.declarations
  keys_nodup := hkeys
  root_declared := hx.declares.root
  field_declared := fun d hd _ hf h hh =>
    hx.declares.mentioned d hd h (RecordTable.mem_mentioned hf hh)

theorem Shows.presentable {marks : Bool} (hx : x.Shows (Tree.Formed NamedByKey marks true) stem T) :
    x.Presentable := by
  refine hx.presentable_of_keys fun d hd => ?_
  obtain ⟨i, hi⟩ := List.mem_iff_getElem?.1 (RecordTable.get?_mem (hx.declares.record d hd))
  exact (hx.sound.wellFormed hi).keys_nodup

/-- Name of the record at a handle. -/
def nameAt (x : Outline) (handle : Int) : String :=
  (x.nameOf? handle).getD ""

/-- A declared handle is named by its declaration. -/
theorem exists_declaration {h : Int} (hh : h ∈ x.handles) :
    ∃ d ∈ x.declarations, d.handle = h ∧ x.nameOf? h = some d.name ∧ x.nameAt h = d.name := by
  obtain ⟨d, hd, rfl⟩ := List.mem_map.1 hh
  have hsome : (x.declarations.find? fun e => e.handle == d.handle).isSome :=
    List.find?_isSome.2 ⟨d, hd, by simp⟩
  obtain ⟨e, he⟩ := Option.isSome_iff_exists.1 hsome
  have hname : x.nameOf? d.handle = some e.name := by rw [nameOf?, he]; rfl
  exact ⟨e, List.mem_of_find?_eq_some he, by simpa using List.find?_some he, hname,
    by rw [nameAt, hname]; rfl⟩

end Outline

/-! ## The schema as it is built -/

namespace JsonSchema

/-- The keywords for a shape, its records named by `name`. -/
def keywordsOf (name : Int → String) : Shape → List (String × Json)
  | .any => []
  | .undefined => [("$comment", .string "no values observed")]
  | .bool => [("type", .string "boolean")]
  | .int64 => [("type", .string "integer")]
  | .float64 => [("type", .string "number")]
  | .string => [("type", .string "string")]
  | .record handle => [("$ref", .string ("#/definitions/" ++ name handle))]
  | .array element => [("type", .string "array"), ("items", .object (keywordsOf name element))]
  | .optional inner => keywordsOf name inner

/-- The properties of a record. -/
def propertiesOf (name : Int → String) (r : Record) : List (String × Json) :=
  r.map fun f => (f.key, .object (keywordsOf name f.shape))

/-- The keyword that lists the required properties of a record, if there are any. -/
def requiredOf (r : Record) : List (String × Json) :=
  if (requiredKeys r).isEmpty then [] else [("required", .array ((requiredKeys r).map .string))]

/-- The keywords for a record. -/
def recordKeywords (name : Int → String) (r : Record) : List (String × Json) :=
  [("type", .string "object"), ("properties", .object (propertiesOf name r))] ++ requiredOf r

/-- The definitions of declared records. -/
def definitionsOf (name : Int → String) (ds : List Declaration) : List (String × Json) :=
  ds.map fun d => (d.name, .object (recordKeywords name d.record))

/-- The keywords of a schema. -/
def schemaKeywords (x : Outline) : List (String × Json) :=
  [("$schema", .string version), ("title", .string "data")] ++
    rootEntries (keywordsOf x.nameAt x.root) ++
    if x.declarations.isEmpty then []
    else [("definitions", .object (definitionsOf x.nameAt x.declarations))]

/-- The schema of a presentable outline. -/
def schemaTree (x : Outline) : Json :=
  .object (schemaKeywords x)

variable {x : Outline} (name : Int → String)

theorem map_fst_propertiesOf (r : Record) :
    (propertiesOf name r).map Prod.fst = r.map FieldOf.key := by
  simp [propertiesOf, Function.comp_def]

theorem map_fst_definitionsOf (ds : List Declaration) :
    (definitionsOf name ds).map Prod.fst = ds.map Declaration.name := by
  simp [definitionsOf, Function.comp_def]

theorem schemaOf_eq_ok {s : Shape}
    (h : ∀ k ∈ s.handles, k ∈ x.handles) :
    schemaOf x s = .ok (keywordsOf x.nameAt s) := by
  induction s with
  | record handle =>
    obtain ⟨d, -, -, hname, hat⟩ := Outline.exists_declaration (h handle (by simp [Shape.handles]))
    rw [schemaOf, hname, keywordsOf, hat]
  | array element ih => rw [schemaOf, ih h, keywordsOf]
  | optional inner ih => rw [schemaOf, ih h, keywordsOf]
  | _ => rfl

theorem definition_eq_ok (h : x.Presentable) {d : Declaration} (hd : d ∈ x.declarations) :
    definition x d = .ok (d.name, .object (recordKeywords x.nameAt d.record)) := by
  have hproperties : d.record.mapM (property x) = .ok (propertiesOf x.nameAt d.record) :=
    mapM_eq_ok fun f hf => by
      rw [property, schemaOf_eq_ok (h.field_declared d hd f hf)]
      rfl
  have hnames : ((propertiesOf x.nameAt d.record).map Prod.fst).Nodup := by
    rw [map_fst_propertiesOf]
    exact h.keys_nodup d hd
  rw [definition, hproperties]
  simp only [bind, Except.bind, Json.ofEntries_eq_object hnames]
  rfl

/-- Building does not fail, and no entry is lost for another of the same name. -/
theorem build_eq_ok (h : x.Presentable) : build x = .ok (schemaTree x) := by
  have hdefinitions : x.declarations.mapM (definition x) =
      .ok (definitionsOf x.nameAt x.declarations) :=
    mapM_eq_ok fun d hd => definition_eq_ok h hd
  have hnames : ((definitionsOf x.nameAt x.declarations).map Prod.fst).Nodup := by
    rw [map_fst_definitionsOf]
    exact h.names_nodup
  have hempty : (definitionsOf x.nameAt x.declarations).isEmpty = x.declarations.isEmpty := by
    simp [definitionsOf]
  rw [build, hdefinitions]
  simp only [bind, Except.bind, schemaOf_eq_ok h.root_declared, Json.ofEntries_eq_object hnames,
    hempty]
  rfl

/-! ### What holds of every keyword -/

section Keywords

variable {R : String × Json → Prop}

theorem forall_mem_recordKeywords {r : Record} (htype : R ("type", .string "object"))
    (hproperties : R ("properties", .object (propertiesOf name r)))
    (hrequired : requiredKeys r ≠ [] → R ("required", .array ((requiredKeys r).map .string))) :
    ∀ e ∈ recordKeywords name r, R e := by
  rw [recordKeywords, requiredOf]
  split
  · simp [htype, hproperties]
  · rename_i hne
    simp [htype, hproperties, hrequired (by simpa using hne)]

/-- A keyword of the root is one for its shape, or `allOf` with a reference under it. -/
theorem forall_mem_rootEntries {entries : List (String × Json)} (hentries : ∀ e ∈ entries, R e)
    (hall : R ("allOf", .array [.object entries])) : ∀ e ∈ rootEntries entries, R e := by
  rw [rootEntries]
  split
  · simpa using hall
  · exact hentries

theorem forall_mem_schemaKeywords (hversion : R ("$schema", .string version))
    (htitle : R ("title", .string "data"))
    (hroot : ∀ e ∈ rootEntries (keywordsOf x.nameAt x.root), R e)
    (hdefinitions : R ("definitions", .object (definitionsOf x.nameAt x.declarations))) :
    ∀ e ∈ schemaKeywords x, R e := by
  intro e he
  rw [schemaKeywords] at he
  rcases List.mem_append.1 he with he | he
  · rcases List.mem_append.1 he with he | he
    · simp only [List.mem_cons, List.not_mem_nil, or_false] at he
      rcases he with rfl | rfl
      · exact hversion
      · exact htitle
    · exact hroot e he
  · split at he
    · simp at he
    · obtain rfl := List.mem_singleton.1 he
      exact hdefinitions

end Keywords

/-! ## Its text is read back -/

theorem map_fst_rootEntries (s : Shape) : (rootEntries (keywordsOf name s)).map Prod.fst ∈
    ([[], ["$comment"], ["type"], ["allOf"], ["type", "items"]] : List (List String)) := by
  induction s with
  | optional inner ih => exact ih
  | _ => simp [keywordsOf, rootEntries]

theorem nodup_schemaKeywords (x : Outline) : ((schemaKeywords x).map Prod.fst).Nodup := by
  have hroot := map_fst_rootEntries x.nameAt x.root
  rw [schemaKeywords, List.map_append, List.map_append]
  generalize (rootEntries (keywordsOf x.nameAt x.root)).map Prod.fst = names at hroot
  simp only [List.mem_cons, List.not_mem_nil, or_false] at hroot
  split <;> rcases hroot with rfl | rfl | rfl | rfl | rfl <;> simp

theorem nodup_recordKeywords (r : Record) : ((recordKeywords name r).map Prod.fst).Nodup := by
  rw [recordKeywords, requiredOf]
  split <;> simp

theorem textual_keywordsOf (s : Shape) : (Json.object (keywordsOf name s)).Textual := by
  induction s with
  | array element ih =>
    exact .object (by simp [keywordsOf]) (by simp [keywordsOf, Json.Textual.string, ih])
  | optional inner ih => exact ih
  | _ => exact .object (by simp [keywordsOf]) (by simp [keywordsOf, Json.Textual.string])

theorem textual_strings (texts : List String) : (Json.array (texts.map .string)).Textual := by
  refine .array fun j hj => ?_
  obtain ⟨text, -, rfl⟩ := List.mem_map.1 hj
  exact .string text

theorem textual_recordKeywords {r : Record} (h : (r.map FieldOf.key).Nodup) :
    (Json.object (recordKeywords name r)).Textual := by
  refine .object (nodup_recordKeywords name r)
    (forall_mem_recordKeywords name (.string _) ?_ fun _ => textual_strings _)
  refine .object (by rwa [map_fst_propertiesOf]) fun e he => ?_
  obtain ⟨f, -, rfl⟩ := List.mem_map.1 he
  exact textual_keywordsOf name f.shape

theorem textual_schemaTree (h : x.Presentable) : (schemaTree x).Textual := by
  have hroot := textual_keywordsOf x.nameAt x.root
  refine .object (nodup_schemaKeywords x) (forall_mem_schemaKeywords (.string _) (.string _)
    (forall_mem_rootEntries hroot.entries ?_) ?_)
  · exact .array (by simpa using hroot)
  · refine .object (by rw [map_fst_definitionsOf]; exact h.names_nodup) fun e he => ?_
    obtain ⟨d, hd, rfl⟩ := List.mem_map.1 he
    exact textual_recordKeywords x.nameAt (h.keys_nodup d hd)

/-! ## It meets the draft's own schema -/

end JsonSchema

namespace Json

/-- The keywords of a schema are tested one by one. -/
theorem entriesViolation?_eq_none_iff {entries : List (String × Json)} :
    entriesViolation? entries = none ↔ ∀ e ∈ entries, entriesViolation? [e] = none := by
  induction entries with
  | nil => simp [entriesViolation?]
  | cons e entries ih =>
    have hcons : entriesViolation? (e :: entries) =
        (entriesViolation? [e]).or (entriesViolation? entries) := by
      simp only [entriesViolation?, Option.or_none]
    rw [hcons, Option.or_eq_none_iff, ih, List.forall_mem_cons]

theorem namedSchemasViolation?_eq_none {entries : List (String × Json)}
    (h : ∀ e ∈ entries, e.2.violation? = none) : namedSchemasViolation? entries = none := by
  induction entries with
  | nil => rw [namedSchemasViolation?]
  | cons e entries ih =>
    rw [namedSchemasViolation?, h e (List.mem_cons_self ..),
      ih fun e he => h e (List.mem_cons_of_mem _ he)]
    rfl

theorem texts?_map_string (names : List String) : texts? (names.map .string) = some names := by
  induction names with
  | nil => rfl
  | cons name names ih => rw [List.map_cons, texts?, ih]; rfl

theorem eraseDups_eq_self {names : List String} (h : names.Nodup) : names.eraseDups = names := by
  induction names with
  | nil => rfl
  | cons name names ih =>
    obtain ⟨hname, hnames⟩ := List.nodup_cons.1 h
    have hfilter : names.filter (fun n => !n == name) = names :=
      List.filter_eq_self.2 fun n hn => by
        have hne : n ≠ name := fun heq => hname (heq ▸ hn)
        simpa using hne
    rw [List.eraseDups_cons, hfilter, ih hnames]

theorem namesViolation?_eq_none {names : List String} (h : names.Nodup) :
    namesViolation? (.array (names.map .string)) = none := by
  simp [namesViolation?, texts?_map_string, eraseDups_eq_self h]

end Json

namespace JsonSchema

variable {x : Outline} (name : Int → String)

theorem entriesViolation?_keywordsOf (s : Shape) :
    Json.entriesViolation? (keywordsOf name s) = none := by
  induction s with
  | array element ih =>
    have hitems : Json.entriesViolation? [("items", .object (keywordsOf name element))] = none := by
      rw [← ih]
      exact Option.or_none
    rw [keywordsOf, Json.entriesViolation?_eq_none_iff, List.forall_mem_cons,
      List.forall_mem_singleton]
    exact ⟨rfl, hitems⟩
  | optional inner ih => exact ih
  | _ => rfl

theorem violation?_recordKeywords {r : Record} (h : (r.map FieldOf.key).Nodup) :
    (Json.object (recordKeywords name r)).violation? = none := by
  refine Json.entriesViolation?_eq_none_iff.2 (forall_mem_recordKeywords name rfl ?_ fun _ => ?_)
  · have hproperties : Json.namedSchemasViolation? (propertiesOf name r) = none := by
      refine Json.namedSchemasViolation?_eq_none fun e he => ?_
      obtain ⟨f, -, rfl⟩ := List.mem_map.1 he
      exact entriesViolation?_keywordsOf name f.shape
    rw [← hproperties]
    exact Option.or_none
  · have hkeys : (requiredKeys r).Nodup := h.sublist (List.filter_sublist.map _)
    rw [← Json.namesViolation?_eq_none hkeys]
    exact Option.or_none

/-- The schema of a presentable outline is valid. -/
theorem violation?_schemaTree (h : x.Presentable) : (schemaTree x).violation? = none := by
  have hroot := entriesViolation?_keywordsOf x.nameAt x.root
  refine Json.entriesViolation?_eq_none_iff.2 (forall_mem_schemaKeywords rfl rfl
    (forall_mem_rootEntries (Json.entriesViolation?_eq_none_iff.1 hroot) ?_) ?_)
  · have hall : Json.schemasViolation? [.object (keywordsOf x.nameAt x.root)] = none := by
      rw [← hroot]
      exact Option.or_none
    rw [← hall]
    exact Option.or_none
  · have hdefinitions : Json.namedSchemasViolation?
        (definitionsOf x.nameAt x.declarations) = none := by
      refine Json.namedSchemasViolation?_eq_none fun e he => ?_
      obtain ⟨d, hd, rfl⟩ := List.mem_map.1 he
      exact violation?_recordKeywords x.nameAt (h.keys_nodup d hd)
    rw [← hdefinitions]
    exact Option.or_none

end JsonSchema

/-! ## Schemas inside a schema -/

namespace Json

/-- The schemas that a value holds under a keyword of the given form. -/
def schemasAt : KeywordForm → Json → List Json
  | .schema, value => [value]
  | .schemaList, .array items => items
  | .schemaOrList, .array items => items
  | .schemaOrList, value => [value]
  | .schemaMap, .object entries => entries.map Prod.snd
  | .patternMap, .object entries => entries.map Prod.snd
  | .dependencies, .object entries => entries.map Prod.snd
  | _, _ => []

/-- The schemas that a keyword holds. -/
def schemasUnder (e : String × Json) : List Json :=
  match keywordForms.lookup e.1 with
  | some form => schemasAt form e.2
  | none => []

/-- The first schema stands somewhere in the second : it is the second one, or it stands in a
schema that a keyword of the second one holds. -/
inductive Subschema (s : Json) : Json → Prop
  | refl : Subschema s s
  | inside {entries : List (String × Json)} {e : String × Json} {part : Json} (he : e ∈ entries)
    (hpart : part ∈ schemasUnder e) (h : Subschema s part) : Subschema s (.object entries)

/-- The names that a schema defines. -/
def definitionNames (j : Json) : List String :=
  match j.get? "definitions" with
  | some (.object definitions) => definitions.map Prod.fst
  | _ => []

/-- The keyword is no list of required properties, or it names some and none twice; and it is no
reference, or it refers to one of the definitions. -/
structure Consistent (definitions : List String) (e : String × Json) : Prop where
  required : e.1 = "required" →
    ∃ names : List String, e.2 = .array (names.map .string) ∧ names ≠ [] ∧ names.Nodup
  reference : e.1 = "$ref" → ∃ name ∈ definitions, e.2 = .string ("#/definitions/" ++ name)

/-- The property holds of every keyword of every schema inside. -/
def EveryKeyword (R : String × Json → Prop) (j : Json) : Prop :=
  ∀ entries, Subschema (.object entries) j → ∀ e ∈ entries, R e

section EveryKeyword

variable {R : String × Json → Prop}

theorem everyKeyword_object {entries : List (String × Json)}
    (h : ∀ e ∈ entries, R e ∧ ∀ part ∈ schemasUnder e, EveryKeyword R part) :
    EveryKeyword R (.object entries) := by
  intro inner hinner
  cases hinner with
  | refl => exact fun e he => (h e he).1
  | inside he hpart hinner => exact (h _ he).2 _ hpart _ hinner

theorem EveryKeyword.entries {entries : List (String × Json)}
    (h : EveryKeyword R (.object entries)) :
    ∀ e ∈ entries, R e ∧ ∀ part ∈ schemasUnder e, EveryKeyword R part :=
  fun e he => ⟨h entries .refl e he, fun _ hpart inner hinner => h inner (.inside he hpart hinner)⟩

/-- No schema stands in a text. -/
theorem everyKeyword_under_string (name text : String) :
    ∀ part ∈ schemasUnder (name, .string text), EveryKeyword R part := by
  intro part hpart inner hinner
  have heq : part = .string text := by
    unfold schemasUnder at hpart
    split at hpart
    · rename_i form _
      cases form <;> simp_all [schemasAt]
    · simp at hpart
  subst heq
  cases hinner

end EveryKeyword

theorem get?_of_mem {entries : List (String × Json)} (hnames : (entries.map Prod.fst).Nodup)
    {name : String} {value : Json} (h : (name, value) ∈ entries) :
    (Json.object entries).get? name = some value := by
  obtain ⟨before, after, rfl⟩ := List.append_of_mem h
  refine List.lookup_eq_some_iff.2 ⟨before, after, rfl, fun e he => ?_⟩
  rw [List.map_append, List.nodup_append] at hnames
  have hne := hnames.2.2 e.1 (List.mem_map_of_mem he) name (by simp)
  simpa using Ne.symm hne

end Json

namespace JsonSchema

variable {x : Outline} (name : Int → String) {definitions : List String}

/-- A keyword that is neither a list of required properties nor a reference is consistent. -/
theorem consistent_of_ne {e : String × Json} (hrequired : e.1 ≠ "required")
    (hreference : e.1 ≠ "$ref") : Json.Consistent definitions e :=
  ⟨fun h => absurd h hrequired, fun h => absurd h hreference⟩

theorem everyKeyword_keywordsOf {s : Shape} (h : ∀ k ∈ s.handles, name k ∈ definitions) :
    Json.EveryKeyword (Json.Consistent definitions) (.object (keywordsOf name s)) := by
  induction s with
  | record handle =>
    refine Json.everyKeyword_object (List.forall_mem_singleton.2 ⟨⟨by simp, fun _ => ?_⟩,
      Json.everyKeyword_under_string _ _⟩)
    exact ⟨name handle, h handle (by simp [Shape.handles]), rfl⟩
  | array element ih =>
    refine Json.everyKeyword_object (List.forall_mem_cons.2 ⟨⟨consistent_of_ne (by simp) (by simp),
      Json.everyKeyword_under_string _ _⟩, List.forall_mem_singleton.2
      ⟨consistent_of_ne (by simp) (by simp), fun part hpart => ?_⟩⟩)
    obtain rfl := List.mem_singleton.1 hpart
    exact ih h
  | optional inner ih => exact ih h
  | any => exact Json.everyKeyword_object (by simp [keywordsOf])
  | _ =>
    exact Json.everyKeyword_object (List.forall_mem_singleton.2
      ⟨consistent_of_ne (by simp) (by simp), Json.everyKeyword_under_string _ _⟩)

theorem everyKeyword_recordKeywords {r : Record} (hkeys : (r.map FieldOf.key).Nodup)
    (h : ∀ f ∈ r, ∀ k ∈ f.shape.handles, name k ∈ definitions) :
    Json.EveryKeyword (Json.Consistent definitions) (.object (recordKeywords name r)) := by
  refine Json.everyKeyword_object (forall_mem_recordKeywords name
    ⟨consistent_of_ne (by simp) (by simp), Json.everyKeyword_under_string _ _⟩
    ⟨consistent_of_ne (by simp) (by simp), fun part hpart => ?_⟩
    fun hne => ⟨⟨fun _ => ?_, by simp⟩, fun part hpart => absurd hpart List.not_mem_nil⟩)
  · obtain ⟨e, he, rfl⟩ := List.mem_map.1
      (show part ∈ (propertiesOf name r).map Prod.snd from hpart)
    obtain ⟨f, hf, rfl⟩ := List.mem_map.1 he
    exact everyKeyword_keywordsOf name (h f hf)
  · exact ⟨requiredKeys r, rfl, hne, hkeys.sublist (List.filter_sublist.map _)⟩

theorem definitionNames_schemaTree (hne : x.declarations ≠ []) :
    (schemaTree x).definitionNames = x.declarations.map Declaration.name := by
  have hmem : ("definitions", .object (definitionsOf x.nameAt x.declarations)) ∈
      schemaKeywords x := by
    simp [schemaKeywords, hne]
  rw [Json.definitionNames, schemaTree, Json.get?_of_mem (nodup_schemaKeywords x) hmem]
  exact map_fst_definitionsOf x.nameAt x.declarations

/-- Every keyword in the schema of a presentable outline is consistent with its definitions. -/
theorem everyKeyword_schemaTree (h : x.Presentable) :
    Json.EveryKeyword (Json.Consistent (schemaTree x).definitionNames) (schemaTree x) := by
  have hname : ∀ k ∈ x.handles, x.nameAt k ∈ (schemaTree x).definitionNames := by
    intro k hk
    obtain ⟨d, hd, -, -, hat⟩ := Outline.exists_declaration hk
    rw [hat, definitionNames_schemaTree (List.ne_nil_of_mem hd)]
    exact List.mem_map_of_mem hd
  generalize (schemaTree x).definitionNames = definitions at hname ⊢
  have hroot := everyKeyword_keywordsOf x.nameAt fun k hk => hname k (h.root_declared k hk)
  refine Json.everyKeyword_object (forall_mem_schemaKeywords
    ⟨consistent_of_ne (by simp) (by simp), Json.everyKeyword_under_string _ _⟩
    ⟨consistent_of_ne (by simp) (by simp), Json.everyKeyword_under_string _ _⟩
    (forall_mem_rootEntries hroot.entries
      ⟨consistent_of_ne (by simp) (by simp), fun part hpart => ?_⟩)
    ⟨consistent_of_ne (by simp) (by simp), fun part hpart => ?_⟩)
  · obtain rfl := List.mem_singleton.1 hpart
    exact hroot
  · obtain ⟨e, he, rfl⟩ := List.mem_map.1
      (show part ∈ (definitionsOf x.nameAt x.declarations).map Prod.snd from hpart)
    obtain ⟨d, hd, rfl⟩ := List.mem_map.1 he
    exact everyKeyword_recordKeywords x.nameAt (h.keys_nodup d hd) fun f hf k hk =>
      hname k (h.field_declared d hd f hf k hk)

end JsonSchema

/-! ## The schema of a value -/

/-- The text of a presentable outline's schema passes the check that is made of it. -/
theorem Outline.Presentable.render_eq_ok {x : Outline} (h : x.Presentable) :
    (render "json_schema" true x).1 = .ok ((JsonSchema.schemaTree x).print ++ "\n") := by
  have hformat : OutputFormat.ofName? "json_schema" = some .jsonSchema := rfl
  have hwrite : JsonSchema.write x = .ok ((JsonSchema.schemaTree x).print ++ "\n") := by
    rw [JsonSchema.write, JsonSchema.build_eq_ok h]
    rfl
  have hcheck : JsonSchema.check ((JsonSchema.schemaTree x).print ++ "\n") = .ok () := by
    simp only [JsonSchema.check, Json.read_print (JsonSchema.textual_schemaTree h),
      JsonSchema.violation?_schemaTree h]
  simp only [render, hformat, OutputFormat.write, hwrite, OutputFormat.check, hcheck, if_true]

/-- Where inference returns, a schema is written and passes its own check. The text is read back as
the schema that was built, which meets the draft's own schema. Every list of required properties in
it names some and none twice, and every reference names one of its definitions. -/
theorem exists_valid_schema {o : Options} {v : Value} {x : Outline}
    (h : (inferValue o v).1 = .ok x) :
    ∃ j text, JsonSchema.build x = .ok j ∧ (render "json_schema" true x).1 = .ok text ∧
      Json.read text = .ok j ∧ j.violation? = none ∧
      ∀ entries, Json.Subschema (.object entries) j →
        ∀ e ∈ entries, Json.Consistent j.definitionNames e := by
  obtain ⟨T, -, hshows⟩ := exists_tree_of_inferValue h
  have hx := hshows.presentable
  exact ⟨_, _, JsonSchema.build_eq_ok hx, hx.render_eq_ok,
    Json.read_print (JsonSchema.textual_schemaTree hx), JsonSchema.violation?_schemaTree hx,
    JsonSchema.everyKeyword_schemaTree hx⟩

/-- Two nested objects, whose keys hold a quote, a backslash and a line break. -/
theorem exists_valid_schema_escaped_keys :
    ∃ x, (inferValue {} (.object [(.text "\"a\\", .object [(.text "b\n", .int 1)])])).1 = .ok x ∧
      x.declarations.length = 2 ∧
      ∃ j text, JsonSchema.build x = .ok j ∧ (render "json_schema" true x).1 = .ok text ∧
        Json.read text = .ok j ∧ j.violation? = none ∧
        ∀ entries, Json.Subschema (.object entries) j →
          ∀ e ∈ entries, Json.Consistent j.definitionNames e := by
  have hcount : (inferValue {} (.object [(.text "\"a\\",
      .object [(.text "b\n", .int 1)])])).1.map (fun x => x.declarations.length) = .ok 2 := by
    decide +kernel
  obtain ⟨x, hx, hlength⟩ := map_eq_ok_iff.1 hcount
  exact ⟨x, hx, hlength.symm, exists_valid_schema hx⟩

end JsonShape
