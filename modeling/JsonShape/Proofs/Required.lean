import JsonShape.Proofs.Marks
import JsonShape.Proofs.Schema

/-!
# Required properties of array elements

The schema of an array of objects refers to the definition of its element record, which lists the
required properties (`Json.DefinesElements`, `Json.Requires`). With optional fields, a key is listed
if every object has it, but not only then. The mark that takes a key off the list cannot stand on
`any`, nor on `undefined`. A key therefore stays listed if its values have no common shape, and an
object without it goes unnoticed if nothing but null and empty objects were seen under it so far
(`requires_iff_of_rows`).
-/

namespace JsonShape

namespace Json

/-- The schema lists the property as required. -/
def Requires (j : Json) (key : String) : Prop :=
  ∃ names, j.get? "required" = some (.array names) ∧ .string key ∈ names

/-- The schema is that of an array, and its items refer to the given definition. -/
def DefinesElements (j definition : Json) : Prop :=
  ∃ name, j.get? "items" = some (.object [("$ref", .string ("#/definitions/" ++ name))]) ∧
    (j.get? "definitions").bind (·.get? name) = some definition

theorem mem_of_get? {entries : List (String × Json)} {name : String} {value : Json}
    (h : (Json.object entries).get? name = some value) : (name, value) ∈ entries := by
  obtain ⟨before, after, rfl, -⟩ := List.lookup_eq_some_iff.1 h
  simp

end Json

namespace JsonSchema

theorem requires_recordKeywords_iff (name : Int → String) (r : Record) (key : String) :
    (Json.object (recordKeywords name r)).Requires key ↔ key ∈ requiredKeys r := by
  constructor
  · rintro ⟨names, hget, hkey⟩
    have hmem := Json.mem_of_get? hget
    have hall := forall_mem_recordKeywords (R := fun e => e.1 = "required" →
      e.2 = .array ((requiredKeys r).map .string)) name (by simp) (by simp) (fun _ _ => rfl) _ hmem
    obtain rfl := Json.array.inj (hall rfl)
    obtain ⟨k, hk, heq⟩ := List.mem_map.1 hkey
    exact Json.string.inj heq ▸ hk
  · intro hkey
    have hne : requiredKeys r ≠ [] := List.ne_nil_of_mem hkey
    refine ⟨(requiredKeys r).map .string, Json.get?_of_mem (nodup_recordKeywords name r) ?_,
      List.mem_map_of_mem hkey⟩
    simp [recordKeywords, requiredOf, hne]

end JsonSchema

/-- The required keys of a record are those of its fields that have no mark in the tree. -/
theorem RecordTable.mem_requiredKeys_iff {t : RecordTable} (ht : t.Grounded) {i : Nat} {r : Record}
    (hr : t.records[i]? = some r) {key : String} : key ∈ JsonSchema.requiredKeys r ↔
      ∃ f ∈ r.map (FieldOf.map t.tree), f.key = key ∧ f.shape.isOptional = false := by
  have hmark : ∀ f ∈ r, (t.tree f.shape).isOptional = f.shape.isOptional := fun f hf =>
    tree_isOptional ht (ht.within hr hf)
  simp only [JsonSchema.requiredKeys, List.mem_map, List.mem_filter, Bool.not_eq_true']
  constructor
  · rintro ⟨f, ⟨hf, hopt⟩, rfl⟩
    exact ⟨f.map t.tree, ⟨f, hf, rfl⟩, rfl, (hmark f hf).trans hopt⟩
  · rintro ⟨_, ⟨f, hf, rfl⟩, rfl, hopt⟩
    exact ⟨f, ⟨hf, (hmark f hf).symm.trans hopt⟩, rfl⟩

/-- The elements of an array of records have a definition, which requires the keys of the record's
unmarked fields. -/
theorem Outline.Shows.definesElements {x : Outline} {stem : String} {marks : Bool}
    {G : List (FieldOf Tree)}
    (hx : x.Shows (Tree.Formed NamedByKey marks true) stem (.array (.record G))) :
    ∃ definition, (JsonSchema.schemaTree x).DefinesElements definition ∧
      ∀ key, definition.Requires key ↔ ∃ f ∈ G, f.key = key ∧ f.shape.isOptional = false := by
  have hgrounded := hx.sound.grounded
  obtain ⟨s, hroot, hs⟩ := RecordTable.eq_array_of_tree hgrounded hx.within hx.tree
  have hwithin : s.Within x.table.size := Shape.within_array.1 (hroot ▸ hx.within)
  obtain ⟨i, r, rfl, hr, rfl⟩ := RecordTable.eq_record_of_tree hgrounded hwithin hs
  have hdeclared : (i : Int) ∈ x.handles :=
    hx.presentable.root_declared i (by simp [hroot, Shape.handles])
  obtain ⟨d, hd, hhandle, -, hname⟩ := Outline.exists_declaration hdeclared
  have hrecord : d.record = r := by
    have hget := hx.declares.record d hd
    rw [hhandle] at hget
    simpa [RecordTable.get?, hr] using hget.symm
  have hnodup := JsonSchema.nodup_schemaKeywords x
  have hitems : ("items", Json.object [("$ref", .string ("#/definitions/" ++ d.name))]) ∈
      JsonSchema.schemaKeywords x := by
    simp [JsonSchema.schemaKeywords, hroot, JsonSchema.keywordsOf, JsonSchema.rootEntries, hname]
  have hdefinitions : ("definitions",
      Json.object (JsonSchema.definitionsOf x.nameAt x.declarations)) ∈
        JsonSchema.schemaKeywords x := by
    simp [JsonSchema.schemaKeywords, List.ne_nil_of_mem hd]
  have hnames : ((JsonSchema.definitionsOf x.nameAt x.declarations).map Prod.fst).Nodup := by
    rw [JsonSchema.map_fst_definitionsOf]
    exact hx.presentable.names_nodup
  refine ⟨.object (JsonSchema.recordKeywords x.nameAt d.record),
    ⟨d.name, Json.get?_of_mem hnodup hitems, ?_⟩, fun key => ?_⟩
  · rw [JsonSchema.schemaTree, Json.get?_of_mem hnodup hdefinitions, Option.bind_some]
    exact Json.get?_of_mem hnames (List.mem_map_of_mem hd)
  · rw [JsonSchema.requires_recordKeywords_iff, hrecord,
      RecordTable.mem_requiredKeys_iff hgrounded hr]

namespace Row

variable {o : Options} {rows : List Row} {v : Value} {x : Outline}

/-- The values under the key have no common shape : taken as an array, they become an array of
anything. -/
def NoCommonShape (o : Options) (key : String) (rows : List Row) : Prop :=
  ∃ y, (inferValue o (.list (values key rows))).1 = .ok y ∧ y.root = .array .any

theorem noCommonShape_iff (h : ∀ row ∈ rows, row.Returns o) (key : String) :
    NoCommonShape o key rows ↔ columnTree o key rows = .any := by
  have hvalues := infer_values h key
  constructor
  · rintro ⟨y, hy, hroot⟩
    obtain ⟨T, hT, hshows⟩ := exists_tree_of_inferValue hy
    obtain rfl := Except.ok.inj (hvalues.symm.trans hT)
    have htree := hshows.tree
    rw [hroot] at htree
    exact (Tree.array.inj htree).symm
  · intro hany
    rw [hany] at hvalues
    cases hy : (inferValue o (.list (values key rows))).1 with
    | error fault => cases (inferValue_eq_error_iff.1 hy).symm.trans hvalues
    | ok y =>
      obtain ⟨T, hT, hshows⟩ := exists_tree_of_inferValue hy
      obtain rfl := Except.ok.inj (hvalues.symm.trans hT)
      have hgrounded := hshows.sound.grounded
      obtain ⟨s, hroot, hs⟩ := RecordTable.eq_array_of_tree hgrounded hshows.within hshows.tree
      have hwithin : s.Within y.table.size := Shape.within_array.1 (hroot ▸ hshows.within)
      obtain rfl : s = .any := RecordTable.eq_leaf_of_tree hgrounded hwithin trivial hs
      exact ⟨y, hy, hroot⟩

/-- An array of objects has a schema, whose element definition requires a key if the key's values
have no common shape or the objects do not show that some of them lack it, and only then. -/
theorem exists_definition (ho : o.optionalFields = true) (hrows : Mergeable rows)
    (hv : v = .list (rows.map object) ∨ v = .tuple (rows.map object))
    (hx : (inferValue o v).1 = .ok x) :
    (∀ row ∈ rows, row.Returns o) ∧
      ∃ text j definition, (render "json_schema" true x).1 = .ok text ∧ Json.read text = .ok j ∧
        j.DefinesElements definition ∧ ∀ key, definition.Requires key ↔
          columnTree o key rows = .any ∨ SeenThroughout key rows := by
  obtain ⟨T, hT, hshows⟩ := exists_tree_of_inferValue hx
  obtain ⟨E, hE, rfl⟩ : ∃ E, Tree.inferItems o .undefined (rows.map object) = .ok E ∧
      T = .array E := by
    rcases hv with rfl | rfl
    · exact (Tree.infer_items_eq_ok rfl).1 hT
    · exact (Tree.infer_items_eq_ok rfl).1 hT
  obtain ⟨hvalues, G, rfl, -, hG⟩ := inferItems_undefined_rows hrows hE
  have hform : Tree.Formed NamedByKey true false (.record G) :=
    (Tree.formed_of_infer (fun _ => rfl) (fun _ _ => rfl) hT).of_array
  obtain ⟨definition, hdefines, hrequires⟩ := hshows.definesElements
  have hpresentable := hshows.presentable
  exact ⟨hvalues, _, _, definition, hpresentable.render_eq_ok,
    Json.read_print (JsonSchema.textual_schemaTree hpresentable), hdefines,
    fun key => (hrequires key).trans (exists_unmarked_iff ho hrows hform hG key)⟩

end Row

/-- With optional fields, the schema of an array of objects requires a key of its elements if every
object has the key, and in two more cases : the key's values have no common shape, or the array
begins with objects that have nothing but null or an empty object under the key, at least one of
them has it, and all objects after them do. -/
theorem requires_iff_of_rows {o : Options} (ho : o.optionalFields = true) {rows : List Row}
    (hrows : Row.Mergeable rows) {v : Value}
    (hv : v = .list (rows.map Row.object) ∨ v = .tuple (rows.map Row.object)) {x : Outline}
    (hx : (inferValue o v).1 = .ok x) :
    ∃ text j definition, (render "json_schema" true x).1 = .ok text ∧ Json.read text = .ok j ∧
      j.DefinesElements definition ∧ ∀ key, definition.Requires key ↔
        (∀ row ∈ rows, row.Has key) ∨ Row.NoCommonShape o key rows ∨ Row.SilentStart key rows := by
  obtain ⟨hvalues, text, j, definition, htext, hread, hdefines, hrequires⟩ :=
    Row.exists_definition ho hrows hv hx
  refine ⟨text, j, definition, htext, hread, hdefines, fun key => ?_⟩
  rw [hrequires, Row.noCommonShape_iff hvalues, Row.SeenThroughout, or_left_comm]

/-- Three objects : the second one lacks a key that the first one has with null. -/
theorem requires_iff_of_rows_null_then_missing :
    let rows : List Row := [[("a", .null), ("b", .int 1)], [("b", .int 2)],
      [("b", .int 3), ("a", .bool true)]]
    Row.Mergeable rows ∧
      ∃ x, (inferValue { optionalFields := true, coerceNumericStrings := false }
        (.list (rows.map Row.object))).1 = .ok x ∧
        ∃ text j definition, (render "json_schema" true x).1 = .ok text ∧ Json.read text = .ok j ∧
          j.DefinesElements definition ∧ ∀ key, definition.Requires key ↔
            (∀ row ∈ rows, row.Has key) ∨
              Row.NoCommonShape { optionalFields := true, coerceNumericStrings := false } key rows ∨
              Row.SilentStart key rows := by
  intro rows
  have hrows : Row.Mergeable rows :=
    ⟨by simp [rows], by simp [rows], by simp [rows], by decide +kernel⟩
  obtain ⟨x, hx⟩ := exists_inferValue_of_not_coerced
    (o := { optionalFields := true, coerceNumericStrings := false }) rfl
    (.list (rows.map Row.object))
  exact ⟨hrows, x, hx, requires_iff_of_rows rfl hrows (Or.inl rfl) hx⟩

/-- A key that the second of two objects lacks is required, since the first one has it with null. -/
theorem requires_missing_key :
    let rows : List Row := [[("a", .null)], [("b", .int 1)]]
    Row.Mergeable rows ∧
      ∃ x text j definition, (inferValue { optionalFields := true, coerceNumericStrings := false }
        (.list (rows.map Row.object))).1 = .ok x ∧ (render "json_schema" true x).1 = .ok text ∧
        Json.read text = .ok j ∧ j.DefinesElements definition ∧
        ¬(definition.Requires "a" ↔ ∀ row ∈ rows, row.Has "a") := by
  intro rows
  have hrows : Row.Mergeable rows :=
    ⟨by simp [rows], by simp [rows], by simp [rows], by decide +kernel⟩
  obtain ⟨x, hx⟩ := exists_inferValue_of_not_coerced
    (o := { optionalFields := true, coerceNumericStrings := false }) rfl
    (.list (rows.map Row.object))
  obtain ⟨-, text, j, definition, htext, hread, hdefines, hrequires⟩ :=
    Row.exists_definition rfl hrows (Or.inl rfl) hx
  refine ⟨hrows, x, text, j, definition, hx, htext, hread, hdefines, fun hiff => ?_⟩
  have hsilent : Row.SilentStart "a" rows := by
    refine ⟨rows, [], rfl, List.forall_mem_cons.2 ⟨?_, List.forall_mem_singleton.2 ?_⟩,
      ⟨_, List.mem_cons_self .., by decide⟩, by simp⟩
    · rintro ⟨v, hv, hblank⟩
      obtain rfl : Value.null = v := Option.some.inj hv
      cases hblank
    · rintro ⟨v, hv, -⟩
      cases (show none = some v from hv)
  have hall := hiff.1 ((hrequires "a").2 (Or.inr (Or.inr hsilent)))
  exact absurd (hall [("b", .int 1)] (by simp [rows])) (by decide)

end JsonShape
