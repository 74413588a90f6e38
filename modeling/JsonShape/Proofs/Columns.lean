import JsonShape.Proofs.Principal

/-!
# Columns of an array of objects

An array of objects is a table : a row for each object, a column for each key. Where no two keys
become the same identifier, the rows merge column by column (`Row.inferItems_rows`,
`Row.mergedField_eq_column`). A cell holds the tree of a value or nothing, and `joinCells` is what a
merge makes of two cells under one another.

The values of a column can also be taken as an array of their own. `Row.columnTree` is the tree of
its elements, which knows nothing of the rows that lack the key (`Row.infer_values`).
-/

namespace JsonShape

/-! ## Joining two cells -/

/-- Joins two cells : `both` combines what they hold, `one` marks what only one of them holds. -/
def joinCells {β : Type} (both : β → β → β) (one : β → β) : Option β → Option β → Option β
  | some a, some b => some (both a b)
  | some a, none => some (one a)
  | none, some b => some (one b)
  | none, none => none

/-- Joins cells from the first one on. -/
def foldCells {β : Type} (both : β → β → β) (one : β → β) : List (Option β) → Option β
  | [] => none
  | c :: cells => cells.foldl (joinCells both one) c

section Join

variable {β γ : Type}

theorem joinCells_map {φ : β → γ} {both : β → β → β} {one : β → β} {both' : γ → γ → γ}
    {one' : γ → γ} (hboth : ∀ a b, both' (φ a) (φ b) = φ (both a b))
    (hone : ∀ a, one' (φ a) = φ (one a)) (c d : Option β) :
    joinCells both' one' (c.map φ) (d.map φ) = (joinCells both one c d).map φ := by
  cases c <;> cases d <;> simp [joinCells, hboth, hone]

theorem foldCells_map {φ : β → γ} {both : β → β → β} {one : β → β} {both' : γ → γ → γ}
    {one' : γ → γ} (hboth : ∀ a b, both' (φ a) (φ b) = φ (both a b))
    (hone : ∀ a, one' (φ a) = φ (one a)) (cells : List (Option β)) :
    foldCells both' one' (cells.map (Option.map φ)) = (foldCells both one cells).map φ := by
  cases cells with
  | nil => rfl
  | cons c cells =>
    rw [foldCells, List.map_cons, foldCells]
    induction cells generalizing c with
    | nil => rfl
    | cons d cells ih =>
      rw [List.map_cons, List.foldl_cons, joinCells_map hboth hone, ih, List.foldl_cons]

/-- What is kept by joining holds of what two cells are joined to. -/
theorem joinCells_forall {p : β → Prop} {both : β → β → β} {one : β → β}
    (hboth : ∀ a b, p a → p b → p (both a b)) (hone : ∀ a, p a → p (one a)) {c d : Option β}
    (hc : ∀ a ∈ c, p a) (hd : ∀ a ∈ d, p a) : ∀ a ∈ joinCells both one c d, p a := by
  cases c <;> cases d <;> simp_all [joinCells]

/-- What holds of everything in the cells, and is kept by joining, holds of the result. -/
theorem foldCells_forall {p : β → Prop} {both : β → β → β} {one : β → β}
    (hboth : ∀ a b, p a → p b → p (both a b)) (hone : ∀ a, p a → p (one a))
    {cells : List (Option β)} (h : ∀ c ∈ cells, ∀ a ∈ c, p a) :
    ∀ a ∈ foldCells both one cells, p a := by
  cases cells with
  | nil => simp [foldCells]
  | cons c cells =>
    rw [foldCells]
    induction cells generalizing c with
    | nil => exact h c (List.mem_cons_self ..)
    | cons d cells ih =>
      obtain ⟨hc, hd, hcells⟩ : (∀ a ∈ c, p a) ∧ (∀ a ∈ d, p a) ∧ ∀ e ∈ cells, ∀ a ∈ e, p a := by
        simpa using h
      exact ih _ (List.forall_mem_cons.2 ⟨joinCells_forall hboth hone hc hd, hcells⟩)

end Join

/-- The fields of one name are joined, the key of the left one kept. -/
theorem RecordOf.find?_combine {α : Type} (J : α → α → α) (alone : α → α)
    (left right : RecordOf α) (n : String) :
    (combine J alone left right).find? n =
      joinCells (fun f g => ⟨f.name, f.key, J f.shape g.shape⟩) (FieldOf.map alone)
        (left.find? n) (right.find? n) := by
  have hleft : find? (left.map (paired J alone right)) n =
      (left.find? n).map (paired J alone right) := by
    rw [find?, List.find?_map]
    simp only [Function.comp_def, paired_name]
    rfl
  have happend : ∀ r s : RecordOf α, find? (r ++ s) n = (r.find? n).or (s.find? n) := by
    simp [find?]
  rw [combine, happend, hleft]
  cases hf : left.find? n with
  | some f =>
    obtain rfl := name_of_find? hf
    rw [Option.map_some, Option.some_or, paired]
    cases right.find? f.name <;> rfl
  | none =>
    have hn : n ∉ left.names := find?_eq_none_iff.1 hf
    have hright : find? (right.filter fun g => g.name ∉ left.names) n = right.find? n := by
      rw [find?, List.find?_filter, find?]
      congr 1
      funext g
      by_cases hg : g.name = n
      · simp [hg, hn]
      · simp [hg]
    rw [find?_map, hright]
    cases right.find? n <;> rfl

/-! ## Rows -/

/-- The entries of an object whose keys are texts. -/
abbrev Row := List (String × Value)

/-- A value that leaves its shape undefined. -/
def Value.isBlank : Value → Bool
  | .null => true
  | .object [] => true
  | _ => false

namespace Tree

variable {o : Options}

/-- The tree of a value, `any` where inference fails. -/
noncomputable def ofValue (o : Options) (v : Value) : Tree :=
  match infer o v with
  | .ok t => t
  | .error _ => .any

theorem ofValue_of_ok {v : Value} {t : Tree} (h : infer o v = .ok t) : ofValue o v = t := by
  rw [ofValue, h]

theorem formed_ofValue (o : Options) (v : Value) : Formed NamedByKey true false (ofValue o v) := by
  unfold ofValue
  split
  · rename_i h
    exact formed_of_infer (fun _ => rfl) (fun _ _ => rfl) h
  · exact .leaf (by trivial) _

theorem infer_eq_undefined_iff {v : Value} : infer o v = .ok .undefined ↔ v.isBlank := by
  cases v with
  | int n =>
    rcases integerShape_cases n with ⟨h, -⟩ | ⟨h, -⟩ <;>
      simp [infer, Value.isBlank, h, Shape.leafTree, Shape.unfold]
  | text s =>
    simp only [infer_text_eq_ok, Value.isBlank, Bool.false_eq_true, iff_false]
    rintro ⟨x, hx, h⟩
    obtain rfl | hcounts := eq_string_or_countsAs hx
    · cases h
    · rcases hcounts.isNumber with rfl | rfl <;> cases h
  | list items | tuple items => exact (infer_items_eq_ok rfl).trans (by simp [Value.isBlank])
  | object entries => cases entries <;> simp [infer_object_eq_ok, Value.isBlank, nameable_nil]
  | _ => simp [infer, Value.isBlank]

theorem ofValue_eq_undefined_iff {v : Value} : ofValue o v = .undefined ↔ v.isBlank := by
  rw [← infer_eq_undefined_iff (o := o), ofValue]
  cases infer o v <;> simp

end Tree

namespace Row

variable {o : Options}

/-- The object with the given entries. -/
def object (row : Row) : Value :=
  .object (row.map fun e => (.text e.1, e.2))

/-- The fields that the entries become. -/
noncomputable def fields (o : Options) (row : Row) : RecordOf Tree :=
  row.map fun e => ⟨identifierOf e.1, e.1, Tree.ofValue o e.2⟩

/-- The cell of a row in the column of a key. -/
noncomputable def cell (o : Options) (k : String) (row : Row) : Option Tree :=
  (row.lookup k).map (Tree.ofValue o)

/-- Inference returns on every value of the row. -/
def Returns (o : Options) (row : Row) : Prop :=
  ∀ e ∈ row, Tree.infer o e.2 = .ok (Tree.ofValue o e.2)

/-- There are rows, none is empty, and no two keys of them become the same identifier. -/
structure Mergeable (rows : List Row) : Prop where
  ne_nil : rows ≠ []
  row_ne_nil : ∀ row ∈ rows, row ≠ []
  keys_nodup : ∀ row ∈ rows, (row.map Prod.fst).Nodup
  identifier_inj : ∀ row ∈ rows, ∀ other ∈ rows, ∀ k ∈ row.map Prod.fst,
    ∀ l ∈ other.map Prod.fst, identifierOf k = identifierOf l → k = l

theorem Mergeable.nodup_names {rows : List Row} (h : Mergeable rows) (o : Options) {row : Row}
    (hrow : row ∈ rows) : (RecordOf.names (row.fields o)).Nodup := by
  have hmap : RecordOf.names (row.fields o) = (row.map Prod.fst).map identifierOf := by
    simp [RecordOf.names, fields, Function.comp_def]
  rw [hmap]
  exact (h.keys_nodup row hrow).map_on fun k hk l hl => h.identifier_inj row hrow row hrow k hk l hl

theorem eq_fields_of_forall₂ {row : Row} {fs : List (FieldOf Tree)}
    (h : List.Forall₂ (Tree.IsField o) (row.map fun e => (.text e.1, e.2)) fs) :
    fs = row.fields o ∧ row.Returns o := by
  induction row generalizing fs with
  | nil =>
    obtain rfl := List.forall₂_nil_left_iff.1 h
    exact ⟨rfl, by simp [Returns]⟩
  | cons e row ih =>
    obtain ⟨f, fs, hf, hfs, rfl⟩ := List.forall₂_cons_left_iff.1 h
    obtain ⟨rfl, hvalues⟩ := ih hfs
    have hvalue := Tree.ofValue_of_ok hf.shape
    have hkey : e.1 = f.key := Value.text.inj hf.key
    refine ⟨?_, List.forall_mem_cons.2 ⟨hf.shape.trans (by rw [hvalue]), hvalues⟩⟩
    have hfield : f = ⟨identifierOf e.1, e.1, Tree.ofValue o e.2⟩ := by
      rw [hvalue, hkey, ← hf.name]
    rw [hfield]
    rfl

/-- An object becomes the record of its fields, and inference returns on each of its values. -/
theorem infer_object {row : Row} (hne : row ≠ []) (hnames : (RecordOf.names (row.fields o)).Nodup)
    {T : Tree} (h : Tree.infer o row.object = .ok T) :
    T = .record (RecordOf.sorted (row.fields o)) ∧ row.Returns o := by
  obtain ⟨hnil, -⟩ | ⟨hnot, -⟩ | ⟨-, -, fs, hfs, rfl⟩ := Tree.infer_object_eq_ok.1 h
  · exact absurd (List.map_eq_nil_iff.1 hnil) hne
  · refine absurd ⟨fun key hkey => ?_, ?_⟩ hnot
    · obtain ⟨e, -, rfl⟩ := List.mem_map.1 (List.map_map ▸ hkey)
      exact ⟨e.1, rfl⟩
    have hmap : ((row.map fun e => (Value.text e.1, e.2)).map Prod.fst).map Value.identifier? =
        (RecordOf.names (row.fields o)).map some := by
      simp [RecordOf.names, fields, Value.identifier?, Function.comp_def]
    rw [hmap]
    exact hnames.map fun _ _ => Option.some.inj
  · obtain ⟨rfl, hvalues⟩ := eq_fields_of_forall₂ hfs
    exact ⟨rfl, hvalues⟩

/-- The field that two fields of one name merge to. -/
noncomputable def joinField (o : Options) (f g : FieldOf Tree) : FieldOf Tree :=
  ⟨f.name, f.key, Tree.unify o f.shape g.shape⟩

/-- Rows merge into a record name by name. -/
theorem inferItems_rows {rows : List Row}
    (hrows : ∀ row ∈ rows, row ≠ [] ∧ (RecordOf.names (row.fields o)).Nodup)
    {F : RecordOf Tree} (hF : F.Ascending) {E : Tree}
    (h : Tree.inferItems o (.record F) (rows.map object) = .ok E) :
    (∀ row ∈ rows, row.Returns o) ∧
      ∃ G : RecordOf Tree, E = .record G ∧ G.Ascending ∧ ∀ n, G.find? n =
        (rows.map fun row => (row.fields o).find? n).foldl
          (joinCells (joinField o) (FieldOf.map (Tree.alone o))) (F.find? n) := by
  induction rows generalizing F with
  | nil =>
    rw [List.map_nil, Tree.inferItems] at h
    exact ⟨by simp, F, (Except.ok.inj h).symm, hF, fun _ => rfl⟩
  | cons row rows ih =>
    obtain ⟨⟨hne, hnames⟩, hrest⟩ := List.forall_mem_cons.1 hrows
    obtain ⟨t, ht, hstep⟩ := Tree.inferItems_cons_eq_ok.1 h
    obtain ⟨rfl, hvalues⟩ := infer_object hne hnames ht
    have hsorted := RecordOf.ascending_sorted hnames
    rw [Tree.unify_record o hF hsorted] at hstep
    obtain ⟨hany, -⟩ | ⟨-, hmerged⟩ := hstep
    · cases hany
    have hnodup := RecordOf.nodup_names_combine (Tree.unify o) (Tree.alone o) hF.nodup hsorted.nodup
    obtain ⟨hall, G, hE, hG, hfind⟩ := ih hrest (RecordOf.ascending_sorted hnodup) hmerged
    refine ⟨List.forall_mem_cons.2 ⟨hvalues, hall⟩, G, hE, hG, fun n => ?_⟩
    rw [hfind, RecordOf.find?_sorted hnodup, RecordOf.find?_combine, RecordOf.find?_sorted hnames]
    rfl

/-- The field of a name that a merge of the rows has. -/
noncomputable def mergedField (o : Options) (rows : List Row) (n : String) :
    Option (FieldOf Tree) :=
  foldCells (joinField o) (FieldOf.map (Tree.alone o)) (rows.map fun row => (row.fields o).find? n)

/-- An array of rows becomes a record, whose field of a name comes from the fields of the rows. -/
theorem inferItems_of_ne_nil {rows : List Row} (hne : rows ≠ [])
    (hrows : ∀ row ∈ rows, row ≠ [] ∧ (RecordOf.names (row.fields o)).Nodup) {E : Tree}
    (h : Tree.inferItems o .undefined (rows.map object) = .ok E) :
    (∀ row ∈ rows, row.Returns o) ∧
      ∃ G : RecordOf Tree, E = .record G ∧ G.Ascending ∧ ∀ n, G.find? n = mergedField o rows n := by
  cases rows with
  | nil => exact absurd rfl hne
  | cons row rows =>
    obtain ⟨⟨hrow, hnames⟩, hrest⟩ := List.forall_mem_cons.1 hrows
    obtain ⟨t, ht, hstep⟩ := Tree.inferItems_cons_eq_ok.1 h
    obtain ⟨rfl, hvalues⟩ := infer_object hrow hnames ht
    rw [Tree.unify_undefined_left] at hstep
    obtain ⟨hany, -⟩ | ⟨-, hmerged⟩ := hstep
    · cases hany
    obtain ⟨hall, G, hE, hG, hfind⟩ :=
      inferItems_rows hrest (RecordOf.ascending_sorted hnames) hmerged
    refine ⟨List.forall_mem_cons.2 ⟨hvalues, hall⟩, G, hE, hG, fun n => ?_⟩
    rw [hfind, RecordOf.find?_sorted hnames]
    rfl

theorem inferItems_undefined_rows {rows : List Row} (hrows : Mergeable rows) {E : Tree}
    (h : Tree.inferItems o .undefined (rows.map object) = .ok E) :
    (∀ row ∈ rows, row.Returns o) ∧
      ∃ G : RecordOf Tree, E = .record G ∧ G.Ascending ∧ ∀ n, G.find? n = mergedField o rows n :=
  inferItems_of_ne_nil hrows.ne_nil
    (fun row hrow => ⟨hrows.row_ne_nil row hrow, hrows.nodup_names o hrow⟩) h

/-! ## The column of a key -/

/-- The row has an entry under the key. -/
def Has (k : String) (row : Row) : Prop :=
  k ∈ row.map Prod.fst

instance (k : String) (row : Row) : Decidable (row.Has k) :=
  inferInstanceAs (Decidable (k ∈ row.map Prod.fst))

theorem lookup_eq_none_iff {k : String} {row : Row} : row.lookup k = none ↔ ¬row.Has k := by
  rw [List.lookup_eq_none_iff]
  simp only [Has, List.mem_map, not_exists, not_and, bne_iff_ne, ne_comm (a := k)]

/-- Where no other key becomes its identifier, a key's field is its cell. -/
theorem find?_fields {k : String} {row : Row}
    (h : ∀ l ∈ row.map Prod.fst, identifierOf l = identifierOf k → l = k) :
    (row.fields o).find? (identifierOf k) =
      (row.cell o k).map fun t => ⟨identifierOf k, k, t⟩ := by
  induction row with
  | nil => rfl
  | cons e row ih =>
    obtain ⟨he, hrow⟩ := List.forall_mem_cons.1 h
    have hcons : fields o (e :: row) =
        ⟨identifierOf e.1, e.1, Tree.ofValue o e.2⟩ :: fields o row := rfl
    rw [hcons, RecordOf.find?_cons, cell, List.lookup_cons]
    by_cases hk : e.1 = k
    · simp [hk]
    · have hne : identifierOf e.1 ≠ identifierOf k := fun hid => hk (he hid)
      have hbeq : (k == e.1) = false := by simpa using Ne.symm hk
      rw [if_neg hne, ih hrow, hbeq]
      rfl

/-- What a merge of the rows holds under a key. -/
noncomputable def column (o : Options) (k : String) (rows : List Row) : Option Tree :=
  foldCells (Tree.unify o) (Tree.alone o) (rows.map (cell o k))

theorem mergedField_eq_column {rows : List Row} {k : String}
    (h : ∀ row ∈ rows, ∀ l ∈ row.map Prod.fst, identifierOf l = identifierOf k → l = k) :
    mergedField o rows (identifierOf k) =
      (column o k rows).map fun t => ⟨identifierOf k, k, t⟩ := by
  have hcells : (rows.map fun row => (row.fields o).find? (identifierOf k)) =
      (rows.map (cell o k)).map (Option.map fun t => ⟨identifierOf k, k, t⟩) := by
    rw [List.map_map]
    exact List.map_congr_left fun row hrow => find?_fields (h row hrow)
  rw [mergedField, hcells, column]
  refine foldCells_map ?_ ?_ _
  · exact fun _ _ => rfl
  · exact fun _ => rfl

/-- The key of a merged field is a key of a row. -/
theorem exists_row_of_mergedField {rows : List Row} {n : String} {f : FieldOf Tree}
    (h : mergedField o rows n = some f) : ∃ row ∈ rows, row.Has f.key := by
  refine foldCells_forall (p := fun g : FieldOf Tree => ∃ row ∈ rows, row.Has g.key) ?_ ?_ ?_ f h
  · exact fun _ _ hf _ => hf
  · exact fun _ hf => hf
  intro c hc g hg
  obtain ⟨row, hrow, rfl⟩ := List.mem_map.1 hc
  obtain ⟨e, he, rfl⟩ := List.mem_map.1 (RecordOf.mem_of_find? hg)
  exact ⟨row, hrow, List.mem_map_of_mem he⟩

/-! ## The values under a key as an array -/

/-- The tree that the values under the key unify to, rows without the key left out. -/
noncomputable def columnTree (o : Options) (k : String) (rows : List Row) : Tree :=
  (rows.filterMap (cell o k)).foldl (Tree.unify o) .undefined

/-- The values under a key, from the first row on. -/
def values (k : String) (rows : List Row) : List Value :=
  rows.filterMap fun row => row.lookup k

end Row

namespace Tree

variable {o : Options}

/-- Items that inference returns on are unified in order; stopping at `any` makes no difference. -/
theorem inferItems_of_ok {items : List Value} (h : ∀ v ∈ items, infer o v = .ok (ofValue o v))
    (found : Tree) :
    inferItems o found items = .ok ((items.map (ofValue o)).foldl (unify o) found) := by
  induction items generalizing found with
  | nil => rw [inferItems]; rfl
  | cons v items ih =>
    obtain ⟨hv, hitems⟩ := List.forall_mem_cons.1 h
    refine inferItems_cons_eq_ok.2 ⟨_, hv, ?_⟩
    by_cases hany : unify o found (ofValue o v) = .any
    · have habsorb : ∀ ts : List Tree, ts.foldl (unify o) .any = .any := by
        intro ts
        induction ts with
        | nil => rfl
        | cons t ts ih => rw [List.foldl_cons, unify_any_left, ih]
      exact Or.inl ⟨hany, by rw [List.map_cons, List.foldl_cons, hany, habsorb]⟩
    · exact Or.inr ⟨hany, ih hitems _⟩

end Tree

/-- The values under a key, as an array, have the tree that the column's cells unify to. -/
theorem Row.infer_values {o : Options} {rows : List Row} (h : ∀ row ∈ rows, row.Returns o)
    (k : String) :
    Tree.infer o (.list (values k rows)) = .ok (.array (columnTree o k rows)) := by
  have hvalues : ∀ v ∈ values k rows, Tree.infer o v = .ok (Tree.ofValue o v) := by
    intro v hv
    obtain ⟨row, hrow, hlookup⟩ := List.mem_filterMap.1 hv
    obtain ⟨before, after, rfl, -⟩ := List.lookup_eq_some_iff.1 hlookup
    exact h _ hrow (k, v) (by simp)
  have hmap : (values k rows).map (Tree.ofValue o) = rows.filterMap (cell o k) := by
    rw [values, List.map_filterMap]
    rfl
  exact (Tree.infer_items_eq_ok rfl).2
    ⟨_, Tree.inferItems_of_ok hvalues _, by rw [columnTree, hmap]⟩

end JsonShape
