import JsonShape.Proofs.Erasure
import JsonShape.Proofs.Marks

/-!
# Folding objects column by column

Inference folds the items of an array from the first on, each step merging all fields of an object
into the record found so far. `Session.infer_column_by_column` gives the same record column by
column : one field for each name in the rows, with the key of the first row that has the name, and
with the shape that the column's values unify to, marked optional if some row has none. Items that
say nothing, `null` and empty objects, may stand anywhere in between.

Columns go by name here : keys of different rows may become the same identifier.
-/

namespace JsonShape

/-! ## Folding cells -/

section Cells

variable {β γ : Type} {both : β → β → β} {one : β → β}

/-- What joining takes from the left comes from the first cell that is not empty. -/
theorem map_foldCells_eq_first {φ : β → γ} (hboth : ∀ a b, φ (both a b) = φ a)
    (hone : ∀ a, φ (one a) = φ a) (cells : List (Option β)) :
    (foldCells both one cells).map φ = (cells.findSome? id).map φ := by
  cases cells with
  | nil => rfl
  | cons c cells =>
    rw [foldCells]
    induction cells generalizing c with
    | nil => cases c <;> rfl
    | cons d cells ih =>
      rw [List.foldl_cons, ih]
      cases c <;> cases d <;> simp [joinCells, hboth, hone]

theorem foldCells_eq_none_iff {cells : List (Option β)} :
    foldCells both one cells = none ↔ ∀ c ∈ cells, c = none := by
  -- whatever the cells hold, what is asked is whether they hold anything
  rw [← Option.map_eq_none_iff (f := fun _ => ()),
    map_foldCells_eq_first (φ := fun _ => ()) (fun _ _ => rfl) (fun _ => rfl),
    Option.map_eq_none_iff, List.findSome?_eq_none_iff]
  rfl

end Cells

namespace Tree

variable {o : Options} {named : String → String → Prop}

/-- Without optional marks, cells unify to what their content does. -/
theorem eq_of_foldCells_of_off (ho : o.optionalFields = false) {cells : List (Option Tree)}
    {T : Tree} (h : foldCells (unify o) (alone o) cells = some T) :
    T = (cells.filterMap id).foldl (unify o) .undefined := by
  cases cells with
  | nil => cases h
  | cons c cells =>
    rw [foldCells] at h
    induction cells generalizing c with
    | nil =>
      rw [List.foldl_nil] at h
      simp [h]
    | cons d cells ih =>
      rw [List.foldl_cons] at h
      rw [ih _ h]
      cases c <;> cases d <;> simp [joinCells, alone_of_off ho]

/-- With optional marks, and nothing undefined in the cells, the mark is set by an empty cell. -/
theorem eq_of_foldCells_of_on (ho : o.optionalFields = true) {cells : List (Option Tree)}
    (hcells : ∀ c ∈ cells, ∀ t ∈ c, Formed named true false t ∧ t ≠ .undefined) {T : Tree}
    (h : foldCells (unify o) (alone o) cells = some T) :
    let U := (cells.filterMap id).foldl (unify o) .undefined
    Formed named true false U ∧ U ≠ .undefined ∧ T = U.markedIf (cells.any Option.isNone) := by
  cases cells with
  | nil => cases h
  | cons c cells =>
    rw [foldCells] at h
    obtain ⟨hc, hrest⟩ := List.forall_mem_cons.1 hcells
    clear hcells
    cases c with
    | some a =>
      obtain ⟨ha, hne⟩ := hc a rfl
      obtain ⟨hU, hUne, hfold⟩ :=
        foldl_telling_cells ho (fun c hc t ht => (hrest c hc t ht).1) ha hne false
      have hT := Option.some.inj (h.symm.trans hfold)
      simpa using ⟨hU, hUne, hT⟩
    | none =>
      induction cells with
      | nil => cases h
      | cons d cells ih =>
        obtain ⟨hd, htail⟩ := List.forall_mem_cons.1 hrest
        cases d with
        | none => simpa using ih htail h
        | some a =>
          -- the first value is marked for the rows above it
          obtain ⟨ha, hne⟩ := hd a rfl
          obtain ⟨hU, hUne, hfold⟩ :=
            foldl_telling_cells ho (fun c hc t ht => (htail c hc t ht).1) ha hne true
          rw [← alone_markedIf ho false] at hfold
          have hT := Option.some.inj (h.symm.trans hfold)
          simpa using ⟨hU, hUne, hT⟩

/-- Items that say nothing can be left out. -/
theorem inferItems_filter_isBlank {found T : Tree} (hfound : found ≠ .any) {items : List Value}
    (h : inferItems o found items = .ok T) :
    inferItems o found (items.filter (!·.isBlank)) = .ok T := by
  induction items generalizing found with
  | nil => exact h
  | cons v items ih =>
    obtain ⟨t, ht, hstep⟩ := inferItems_cons_eq_ok.1 h
    by_cases hv : v.isBlank
    · obtain rfl := Except.ok.inj (ht.symm.trans (infer_eq_undefined_iff.2 hv))
      rw [List.filter_cons_of_neg (by simp [hv])]
      rw [unify_undefined_right] at hstep
      obtain ⟨hany, -⟩ | ⟨-, hrest⟩ := hstep
      · exact absurd hany hfound
      · exact ih hfound hrest
    · rw [List.filter_cons_of_pos (by simp [hv])]
      refine inferItems_cons_eq_ok.2 ⟨t, ht, hstep.imp id ?_⟩
      rintro ⟨hany, hrest⟩
      exact ⟨hany, ih hany hrest⟩

end Tree

/-! ## The column of a name -/

namespace Row

variable {o : Options} {n : String} {rows : List Row}

/-- The identifiers that the keys become. -/
def names (row : Row) : List String :=
  row.map fun e => identifierOf e.1

/-- The entry whose key becomes the name. -/
def entryNamed (n : String) (row : Row) : Option (String × Value) :=
  row.find? fun e => identifierOf e.1 == n

/-- The values under the name, from the first row on. -/
def valuesNamed (n : String) (rows : List Row) : List Value :=
  rows.filterMap fun row => (row.entryNamed n).map Prod.snd

/-- The items of an array are the rows as objects, with `null` and empty objects anywhere between
them. There are rows, none is empty, and in none of them two keys become the same identifier. -/
structure Interspersed (rows : List Row) (items : List Value) : Prop where
  objects : items.filter (!·.isBlank) = rows.map object
  ne_nil : rows ≠ []
  row_ne_nil : ∀ row ∈ rows, row ≠ []
  names_nodup : ∀ row ∈ rows, row.names.Nodup

theorem names_fields (o : Options) (row : Row) : RecordOf.names (row.fields o) = row.names := by
  simp [RecordOf.names, fields, names, Function.comp_def]

theorem isSome_entryNamed {row : Row} : (row.entryNamed n).isSome = true ↔ n ∈ row.names := by
  simp [entryNamed, names]

theorem find?_fields_eq_entryNamed (o : Options) (n : String) (row : Row) :
    (row.fields o).find? n =
      (row.entryNamed n).map fun e => ⟨identifierOf e.1, e.1, Tree.ofValue o e.2⟩ := by
  rw [RecordOf.find?, fields, List.find?_map]
  rfl

/-- An array with rows in it becomes a record, whose fields come from the rows. -/
theorem Interspersed.inferItems {items : List Value} (h : Interspersed rows items) {E : Tree}
    (hE : Tree.inferItems o .undefined items = .ok E) :
    (∀ row ∈ rows, row.Returns o) ∧
      ∃ G : RecordOf Tree, E = .record G ∧ G.Ascending ∧ ∀ n, G.find? n = mergedField o rows n := by
  have hrows := Tree.inferItems_filter_isBlank (by simp) hE
  rw [h.objects] at hrows
  refine inferItems_of_ne_nil h.ne_nil (fun row hrow => ?_) hrows
  rw [names_fields]
  exact ⟨h.row_ne_nil row hrow, h.names_nodup row hrow⟩

/-- A name has a merged field if some row has the name. -/
theorem isSome_mergedField : (mergedField o rows n).isSome ↔ ∃ row ∈ rows, n ∈ row.names := by
  rw [← not_iff_not, Bool.not_eq_true, Option.isSome_eq_false_iff, Option.isNone_iff_eq_none,
    mergedField, foldCells_eq_none_iff]
  simp [find?_fields_eq_entryNamed, ← isSome_entryNamed]

/-- The merged field has the key of the first row with the name. -/
theorem key_mergedField {f : FieldOf Tree} (h : mergedField o rows n = some f) :
    (rows.findSome? (entryNamed n)).map Prod.fst = some f.key := by
  have hfirst : (mergedField o rows n).map FieldOf.key =
      ((rows.map fun row => (row.fields o).find? n).findSome? id).map FieldOf.key := by
    refine map_foldCells_eq_first ?_ ?_ _
    · exact fun _ _ => rfl
    · exact fun _ => rfl
  rw [h, List.findSome?_map, List.map_findSome?] at hfirst
  rw [List.map_findSome?, ← Option.map_some, hfirst]
  congr 1
  funext row
  simp [find?_fields_eq_entryNamed, Function.comp_def]

/-- The cell of a row in the column of a name. -/
noncomputable def cellNamed (o : Options) (n : String) (row : Row) : Option Tree :=
  (row.entryNamed n).map fun e => Tree.ofValue o e.2

theorem shape_mergedField (o : Options) (rows : List Row) (n : String) :
    (mergedField o rows n).map FieldOf.shape =
      foldCells (Tree.unify o) (Tree.alone o) (rows.map (cellNamed o n)) := by
  have hcells : rows.map (cellNamed o n) =
      (rows.map fun row => (row.fields o).find? n).map (Option.map FieldOf.shape) := by
    simp [cellNamed, find?_fields_eq_entryNamed, Function.comp_def]
  have hfold : foldCells (Tree.unify o) (Tree.alone o)
      ((rows.map fun row => (row.fields o).find? n).map (Option.map FieldOf.shape)) =
        (mergedField o rows n).map FieldOf.shape := by
    refine foldCells_map ?_ ?_ _
    · exact fun _ _ => rfl
    · exact fun _ => rfl
  rw [hcells, hfold]

theorem filterMap_cellNamed (o : Options) (n : String) (rows : List Row) :
    (rows.map (cellNamed o n)).filterMap id = (valuesNamed n rows).map (Tree.ofValue o) := by
  simp [valuesNamed, cellNamed, List.filterMap_map, List.map_filterMap, Function.comp_def]

theorem any_isNone_cellNamed :
    (rows.map (cellNamed o n)).any Option.isNone = false ↔ ∀ row ∈ rows, n ∈ row.names := by
  simp [cellNamed, ← isSome_entryNamed, Option.isSome_iff_ne_none]

/-- What the trees of the values under a name unify to. -/
noncomputable def treeNamed (o : Options) (n : String) (rows : List Row) : Tree :=
  ((valuesNamed n rows).map (Tree.ofValue o)).foldl (Tree.unify o) .undefined

theorem shape_mergedField_of_off (ho : o.optionalFields = false) {f : FieldOf Tree}
    (h : mergedField o rows n = some f) : f.shape = treeNamed o n rows := by
  have hshape := shape_mergedField o rows n
  rw [h] at hshape
  rw [treeNamed, ← filterMap_cellNamed]
  exact Tree.eq_of_foldCells_of_off ho hshape.symm

/-- Where no value is blank, the mark says that some row lacks the name, unless the values have no
common shape. -/
theorem shape_mergedField_of_on (ho : o.optionalFields = true) {f : FieldOf Tree}
    (htells : .undefined ∉ (valuesNamed n rows).map (Tree.ofValue o))
    (h : mergedField o rows n = some f) :
    ((∀ row ∈ rows, n ∈ row.names) ∨ treeNamed o n rows = .any →
        f.shape = treeNamed o n rows) ∧
      (¬((∀ row ∈ rows, n ∈ row.names) ∨ treeNamed o n rows = .any) →
        f.shape = .optional (treeNamed o n rows)) := by
  have hshape := shape_mergedField o rows n
  rw [h] at hshape
  have hcells : ∀ c ∈ rows.map (cellNamed o n), ∀ t ∈ c,
      Tree.Formed NamedByKey true false t ∧ t ≠ .undefined := by
    intro c hc t ht
    obtain rfl : c = some t := ht
    have hmem : t ∈ (rows.map (cellNamed o n)).filterMap id := List.mem_filterMap.2 ⟨_, hc, rfl⟩
    rw [filterMap_cellNamed] at hmem
    refine ⟨?_, fun hundef => htells (hundef ▸ hmem)⟩
    obtain ⟨v, -, rfl⟩ := List.mem_map.1 hmem
    exact Tree.formed_ofValue o v
  obtain ⟨hU, hne, hT⟩ := Tree.eq_of_foldCells_of_on ho hcells hshape.symm
  rw [filterMap_cellNamed, ← treeNamed] at hU hne hT
  rw [hT]
  constructor
  · rintro (hall | hany)
    · rw [any_isNone_cellNamed.2 hall]
      rfl
    · rw [hany]
      cases (rows.map (cellNamed o n)).any Option.isNone <;> rfl
  · intro hnot
    rw [not_or, ← any_isNone_cellNamed (o := o), Bool.not_eq_false] at hnot
    rw [hnot.1]
    exact hU.markOptional_eq hnot.2 hne

end Row

/-! ## Columns on a session -/

theorem Row.infer_valuesNamed {o : Options} {rows : List Row} (h : ∀ row ∈ rows, row.Returns o)
    (n : String) : ∀ v ∈ valuesNamed n rows, Tree.infer o v = .ok (Tree.ofValue o v) := by
  intro v hv
  obtain ⟨row, hrow, hentry⟩ := List.mem_filterMap.1 hv
  obtain ⟨e, he, rfl⟩ := Option.map_eq_some_iff.1 hentry
  exact h row hrow e (List.mem_of_find?_eq_some he)

namespace Session

variable {P : Tree → Prop} {s : Session} {o : Options}

/-- Shapes read as trees, one by one. -/
def ReadsAll (P : Tree → Prop) (t : RecordTable) : List Shape → List Tree → Prop :=
  List.Forall₂ (t.Reads P)

theorem mapM_infer_gives (hP : Tree.Inferred o P) (hs : s.table.Sound P) {values : List Value}
    (h : ∀ v ∈ values, Tree.infer o v = .ok (Tree.ofValue o v)) :
    Gives P (ReadsAll P) (values.mapM (infer o)) s (.ok (values.map (Tree.ofValue o))) := by
  induction values generalizing s with
  | nil => exact Gives.pure hs .nil
  | cons v values ih =>
    obtain ⟨hv, hvalues⟩ := List.forall_mem_cons.1 h
    rw [List.mapM_cons]
    have hfirst := infer_gives hP v hs
    rw [hv] at hfirst
    refine hfirst.bind fun x s₁ h₁ hx => ?_
    refine (ih h₁.sound hvalues).bind fun xs s₂ h₂ hxs => ?_
    exact Gives.pure h₂.sound (.cons (hx.grow h₂.grows) hxs)

theorem foldlM_unify_gives (hP : Tree.Kept o P) (hs : s.table.Sound P) {xs : List Shape}
    {Ts : List Tree} (h : ReadsAll P s.table xs Ts) {a : Shape} {A : Tree}
    (ha : s.table.Reads P a A) :
    Gives P (RecordTable.Reads P) (xs.foldlM (unify o) a) s (.ok (Ts.foldl (Tree.unify o) A)) := by
  induction xs generalizing s Ts a A with
  | nil =>
    cases h
    exact Gives.pure hs ha
  | cons x xs ih =>
    obtain ⟨T, Ts, hx, hxs, rfl⟩ := List.forall₂_cons_left_iff.1 h
    rw [List.foldlM_cons, List.foldl_cons]
    refine (unify_gives_of_reads hP hs ha hx).bind fun b s₁ h₁ hb => ?_
    exact ih h₁.sound (hxs.imp fun _ _ hy => hy.grow h₁.grows) hb

theorem ReadsAll.undefined_mem {t : RecordTable} (ht : t.Grounded) {xs : List Shape}
    {Ts : List Tree} (h : ReadsAll P t xs Ts) (hmem : .undefined ∈ Ts) : .undefined ∈ xs := by
  induction h with
  | nil => cases hmem
  | @cons x T xs Ts hx hxs ih =>
    rcases List.mem_cons.1 hmem with rfl | hmem
    · have hundef := (RecordTable.tree_eq_leaf_iff (l := .undefined) ht hx.1.within trivial).1 hx.2
      exact hundef ▸ List.mem_cons_self ..
    · exact List.mem_cons_of_mem _ (ih hmem)

/-- A field that reads as the merged field of its name has the shape that the values under the name
unify to, up to the optional mark. -/
theorem exists_column (hs : s.table.Sound Tree.Unrestricted) {rows : List Row}
    (hreturns : ∀ row ∈ rows, row.Returns o) {f : Field} (hf : f.shape.Within s.table.size)
    (hfield : Row.mergedField o rows f.name = some (f.map s.table.tree)) :
    ∃ xs U s₁ s₂, ((Row.valuesNamed f.name rows).mapM (infer o)).run s = (.ok xs, s₁) ∧
      (xs.foldlM (unify o) .undefined).run s₁ = (.ok U, s₂) ∧
      (o.optionalFields = false → f.shape = U) ∧
      (o.optionalFields = true → .undefined ∉ xs →
        f.shape = if (∀ row ∈ rows, f.name ∈ row.names) ∨ U = .any then U else .optional U) := by
  have hP := Tree.inferred_unrestricted o
  obtain ⟨xs, s₁, hmap, h₁, hxs⟩ := mapM_infer_gives hP hs (Row.infer_valuesNamed hreturns f.name)
  obtain ⟨U, s₂, hfold, h₂, hU, htree⟩ := foldlM_unify_gives hP.toKept h₁.sound hxs
    (a := .undefined) (A := .undefined) ⟨⟨Shape.within_of_handles_eq_nil rfl, trivial⟩, rfl⟩
  have hgrows := h₁.grows.trans h₂.grows
  have hshape : s₂.table.tree f.shape = (f.map s.table.tree).shape := hgrows.tree_eq hf
  have hany : U = .any ↔ Row.treeNamed o f.name rows = .any := by
    rw [Row.treeNamed, ← htree]
    exact (RecordTable.tree_eq_leaf_iff (l := .any) h₂.sound.grounded hU.within trivial).symm
  refine ⟨xs, U, s₁, s₂, hmap, hfold, fun hoff => ?_, fun hon htells => ?_⟩
  · refine (h₂.sound.tree_inj (hgrows.within hf) hU.within).1 ?_
    rw [hshape, htree]
    exact Row.shape_mergedField_of_off hoff hfield
  · obtain ⟨hplain, hmarked⟩ := Row.shape_mergedField_of_on hon
      (fun hmem => htells (hxs.undefined_mem h₁.sound.grounded hmem)) hfield
    rw [← hany] at hplain hmarked
    split_ifs with hcond
    · refine (h₂.sound.tree_inj (hgrows.within hf) hU.within).1 ?_
      rw [hshape, htree]
      exact hplain hcond
    · refine (h₂.sound.tree_inj (hgrows.within hf) (Shape.within_optional.2 hU.within)).1 ?_
      rw [hshape, hmarked hcond, RecordTable.tree_optional, htree, Row.treeNamed]

/-- Objects fold column by column. The elements of an array of objects are a record whose names are
those of the objects. A field has the key of the first object with its name, and its shape is what
the shapes of the values under the name unify to, in order. With optional fields, and no value that
says nothing, it is marked where some object lacks the name and the values have a common shape. -/
theorem infer_column_by_column {s s' : Session} (hs : s.Worked) {v : Value} {items : List Value}
    (hv : v.items? = some items) {rows : List Row} (hrows : Row.Interspersed rows items) {x : Shape}
    (hrun : (infer o v).run s = (.ok x, s')) :
    ∃ i r, x = .array (.record i) ∧ s'.table.get? i = some r ∧ r.names.Nodup ∧
      (∀ n, n ∈ r.names ↔ ∃ row ∈ rows, n ∈ row.names) ∧
      ∀ f ∈ r, (rows.findSome? (Row.entryNamed f.name)).map Prod.fst = some f.key ∧
        ∃ xs U s₁ s₂, ((Row.valuesNamed f.name rows).mapM (infer o)).run s' = (.ok xs, s₁) ∧
          (xs.foldlM (unify o) .undefined).run s₁ = (.ok U, s₂) ∧
          (o.optionalFields = false → f.shape = U) ∧
          (o.optionalFields = true → .undefined ∉ xs →
            f.shape = if (∀ row ∈ rows, f.name ∈ row.names) ∨ U = .any then U
              else .optional U) := by
  obtain ⟨T, hT, hadv, hx, htree⟩ :=
    (infer_gives (Tree.inferred_unrestricted o) v hs.sound).of_run_ok hrun
  obtain ⟨E, hE, rfl⟩ := (Tree.infer_items_eq_ok hv).1 hT
  obtain ⟨hreturns, G, rfl, hasc, hG⟩ := hrows.inferItems hE
  obtain ⟨e, rfl, he⟩ := RecordTable.eq_array_of_tree hadv.sound.grounded hx.within htree
  obtain ⟨i, r, rfl, hr, rfl⟩ :=
    RecordTable.eq_record_of_tree hadv.sound.grounded (Shape.within_array.1 hx.within) he
  have hnames : RecordOf.names (r.map (FieldOf.map s'.table.tree)) = r.names :=
    RecordOf.names_map _ r
  refine ⟨i, r, rfl, by simp [RecordTable.get?, hr], hnames ▸ hasc.nodup, fun n => ?_,
    fun f hf => ?_⟩
  · rw [← Row.isSome_mergedField (o := o), ← hG, ← hnames, Option.isSome_iff_ne_none, ne_eq,
      RecordOf.find?_eq_none_iff, not_not]
  · have hmem := List.mem_map_of_mem (f := FieldOf.map s'.table.tree) hf
    have hfield := (hG f.name).symm.trans ((RecordOf.find?_eq_some_iff hasc.nodup).2 ⟨hmem, rfl⟩)
    exact ⟨Row.key_mergedField hfield,
      exists_column hadv.sound hreturns (hadv.sound.grounded.within hr hf) hfield⟩

/-- Where texts stay texts, inference returns on every value. -/
theorem infer_returns (ho : o.coerceNumericStrings = false) (hs : s.table.Sound Tree.Unrestricted)
    (v : Value) : ∃ x s', (infer o v).run s = (.ok x, s') := by
  have hgives := infer_gives (Tree.inferred_unrestricted o) v hs
  cases hT : Tree.infer o v with
  | ok T =>
    rw [hT] at hgives
    obtain ⟨x, s', hrun, -⟩ := hgives
    exact ⟨x, s', hrun⟩
  | error fault =>
    have hcoerce := (Tree.fault_of_infer hT).1
    rw [ho] at hcoerce
    cases hcoerce

/-- Two rows with one name under different keys, and a name that only the second row has. -/
def twoRows : List Row :=
  [[("a_b", .int 1)], [("aB", .text "x"), ("c", .bool true)]]

/-- The two rows as objects, between items that say nothing. -/
def twoRowItems : List Value :=
  [.null, .object [(.text "a_b", .int 1)], .object [],
    .object [(.text "aB", .text "x"), (.text "c", .bool true)]]

theorem interspersed_twoRows : Row.Interspersed twoRows twoRowItems where
  objects := rfl
  ne_nil := by decide
  row_ne_nil := by decide
  names_nodup := by decide +kernel

theorem infer_column_by_column_twoRows :
    Row.Interspersed twoRows twoRowItems ∧
      ∃ x s', (infer { optionalFields := true, coerceNumericStrings := false }
          (.list twoRowItems)).run {} = (.ok x, s') ∧
        ∃ i r, x = .array (.record i) ∧ s'.table.get? i = some r ∧
          ∀ n, n ∈ r.names ↔ ∃ row ∈ twoRows, n ∈ row.names := by
  obtain ⟨x, s', hrun⟩ := infer_returns (s := {})
    (o := { optionalFields := true, coerceNumericStrings := false }) rfl
    (Worked.start "S").sound (.list twoRowItems)
  obtain ⟨i, r, hx, hr, -, hnames, -⟩ :=
    infer_column_by_column (Worked.start "S") rfl interspersed_twoRows hrun
  exact ⟨interspersed_twoRows, x, s', hrun, i, r, hx, hr, hnames⟩

end Session

end JsonShape
