import JsonShape.Proofs.Columns

/-!
# Optional marks on a column

With optional fields, a column keeps that some row lacks its key in the optional mark alone, and
`any` and `undefined` take none. So what counts is the first row whose value says something of its
shape. Rows above it leave `undefined` behind, or nothing if none of them has the key; from it on,
the mark is set by the first row without the key and stays, unless the column ends in `any`
(`Row.column_spec`).

`Row.exists_unmarked_iff` reads this off the merged record : a key's field is unmarked if every row
has the key, and in the two cases where the mark gets lost.
-/

namespace JsonShape

/-! ## Marking and unifying -/

namespace Tree

variable {o : Options} {named : String → String → Prop} {marks : Bool}

theorem Formed.isOptional_eq_false {t : Tree} (h : Formed named marks false t) :
    t.isOptional = false := by
  cases t with
  | optional x => exact absurd h.of_optional.1 (by simp)
  | _ => rfl

theorem markOptional_of_ne {t : Tree} (hopt : t.isOptional = false) (hany : t ≠ .any)
    (hundef : t ≠ .undefined) : t.markOptional = .optional t := by
  cases t <;> simp_all [Tree.markOptional, Tree.isOptional]

theorem Formed.markOptional_eq {t : Tree} (h : Formed named marks false t) (hany : t ≠ .any)
    (hundef : t ≠ .undefined) : t.markOptional = .optional t :=
  markOptional_of_ne h.isOptional_eq_false hany hundef

/-- A mark on the left stays, whatever is unified. -/
theorem unify_markOptional_left (o : Options) {a b : Tree} (ha : Formed named marks false a)
    (hb : Formed named marks false b) (hne : a ≠ .undefined) :
    unify o a.markOptional b = (unify o a b).markOptional := by
  by_cases hany : a = .any
  · simp [hany, Tree.markOptional]
  rw [ha.markOptional_eq hany hne]
  by_cases hbany : b = .any
  · simp [hbany, Tree.markOptional]
  by_cases hbundef : b = .undefined
  · rw [hbundef, unify_undefined_right, unify_undefined_right, ha.markOptional_eq hany hne]
  have hopt := hb.isOptional_eq_false
  have hdiff : Tree.optional a ≠ b := by
    rintro rfl
    simp [isOptional] at hopt
  have hrule : rule (.optional a) b = .inside := by
    simp [rule, hbany, hbundef, hdiff, isOptional]
  rw [unify_inside hrule, dropOptional_eq_self hopt]
  rfl

theorem unify_ne_undefined (o : Options) {a b : Tree} (ha : Formed named marks false a)
    (hb : Formed named marks false b) (hne : a ≠ .undefined) : unify o a b ≠ .undefined := by
  have hu := ha.unifies o hb
  have hopta := ha.isOptional_eq_false
  have hoptb := hb.isOptional_eq_false
  generalize unify o a b = c at hu
  cases hu with
  | inside ho => simp [hopta, hoptb] at ho
  | undefinedLeft => exact absurd rfl hne
  | undefinedRight => exact hne
  | same => exact hne
  | _ => simp

/-- The tree, marked optional where asked for. -/
def markedIf (m : Bool) (t : Tree) : Tree :=
  if m then t.markOptional else t

theorem alone_markedIf (ho : o.optionalFields = true) (m : Bool) (t : Tree) :
    (t.markedIf m).alone o = t.markedIf true := by
  cases m <;> cases t <;> simp [alone, ho, markedIf, markOptional]

theorem unify_markedIf (o : Options) {a b : Tree} (ha : Formed named marks false a)
    (hb : Formed named marks false b) (hne : a ≠ .undefined) (m : Bool) :
    unify o (a.markedIf m) b = (unify o a b).markedIf m := by
  cases m with
  | false => rfl
  | true => exact unify_markOptional_left o ha hb hne

theorem Formed.isOptional_markedIf {t : Tree} (h : Formed named marks false t)
    (hne : t ≠ .undefined) (m : Bool) :
    (t.markedIf m).isOptional = false ↔ t = .any ∨ m = false := by
  cases m with
  | false => simpa [markedIf] using h.isOptional_eq_false
  | true =>
    by_cases hany : t = .any
    · subst hany
      simp [markedIf, Tree.markOptional, isOptional]
    · simp [markedIf, h.markOptional_eq hany hne, isOptional, hany]

/-- Cells that say nothing leave nothing, or `undefined` if there is one that is not empty. -/
theorem foldl_blank_cells (o : Options) {c : Option Tree} {cells : List (Option Tree)}
    (h : ∀ d ∈ c :: cells, d = none ∨ d = some .undefined) :
    cells.foldl (joinCells (unify o) (alone o)) c =
      if (c :: cells).all Option.isNone then none else some .undefined := by
  have halone : alone o .undefined = .undefined := by simp [alone, markOptional]
  induction cells generalizing c with
  | nil =>
    rcases h c (List.mem_cons_self ..) with rfl | rfl
    · rfl
    · rfl
  | cons d cells ih =>
    obtain ⟨hc, hd, hcells⟩ : (c = none ∨ c = some .undefined) ∧ (d = none ∨ d = some .undefined) ∧
        ∀ e ∈ cells, e = none ∨ e = some .undefined := by simpa using h
    have hjoin : joinCells (unify o) (alone o) c d = c.or d := by
      rcases hc with rfl | rfl <;> rcases hd with rfl | rfl <;> simp [joinCells, halone]
    have hor : c.or d = none ∨ c.or d = some .undefined := by
      rcases hc with rfl | rfl
      · simpa using hd
      · simp
    rw [List.foldl_cons, hjoin, ih (List.forall_mem_cons.2 ⟨hor, hcells⟩)]
    simp [Bool.and_assoc]

/-- Once a column says something, a mark is set by an empty cell and stays. -/
theorem foldl_telling_cells (ho : o.optionalFields = true) {cells : List (Option Tree)}
    (hcells : ∀ c ∈ cells, ∀ t ∈ c, Formed named true false t) {a : Tree}
    (ha : Formed named true false a) (hne : a ≠ .undefined) (m : Bool) :
    let b := (cells.filterMap id).foldl (unify o) a
    Formed named true false b ∧ b ≠ .undefined ∧
      cells.foldl (joinCells (unify o) (alone o)) (some (a.markedIf m)) =
        some (b.markedIf (m || cells.any Option.isNone)) := by
  induction cells generalizing a m with
  | nil => simpa using ⟨ha, hne⟩
  | cons c cells ih =>
    obtain ⟨hc, hrest⟩ := List.forall_mem_cons.1 hcells
    cases c with
    | none =>
      rw [List.foldl_cons, joinCells, alone_markedIf ho]
      simpa using ih hrest ha hne true
    | some t =>
      have ht := hc t rfl
      rw [List.foldl_cons, joinCells, unify_markedIf o ha ht hne]
      simpa using ih hrest (ha.unify (fun _ => rfl) ht) (unify_ne_undefined o ha ht hne) m

end Tree

/-! ## The first row that tells -/

namespace Row

variable {o : Options} {k : String}

/-- The row's value under the key says something of its shape. -/
def Tells (k : String) (row : Row) : Prop :=
  ∃ v, row.lookup k = some v ∧ v.isBlank = false

/-- The rows begin with some that say nothing of the key's shape, one with the key among them, and
all others have the key. -/
def SilentStart (k : String) (rows : List Row) : Prop :=
  ∃ silent rest, rows = silent ++ rest ∧ (∀ row ∈ silent, ¬row.Tells k) ∧
    (∃ row ∈ silent, row.Has k) ∧ ∀ row ∈ rest, row.Has k

/-- The rows do not show that the key is missing from some of them. -/
def SeenThroughout (k : String) (rows : List Row) : Prop :=
  (∀ row ∈ rows, row.Has k) ∨ SilentStart k rows

theorem cell_eq_none_iff {row : Row} : row.cell o k = none ↔ ¬row.Has k := by
  rw [cell, Option.map_eq_none_iff, lookup_eq_none_iff]

theorem all_isNone_iff {rows : List Row} :
    (rows.map (cell o k)).all Option.isNone = true ↔ ¬∃ row ∈ rows, row.Has k := by
  simp [cell_eq_none_iff]

theorem any_isNone_eq_false_iff {rows : List Row} :
    (rows.map (cell o k)).any Option.isNone = false ↔ ∀ row ∈ rows, row.Has k := by
  have hcell : ∀ row : Row, (row.cell o k).isNone = false ↔ row.Has k := fun row => by
    rw [← not_iff_not, ← cell_eq_none_iff (o := o), Bool.not_eq_false, Option.isNone_iff_eq_none]
  simp only [List.any_eq_false, List.forall_mem_map, Bool.not_eq_true, hcell]

theorem cell_of_tells {row : Row} (h : row.Tells k) :
    ∃ t, row.cell o k = some t ∧ t ≠ .undefined ∧ Tree.Formed NamedByKey true false t := by
  obtain ⟨v, hv, hblank⟩ := h
  refine ⟨Tree.ofValue o v, by rw [cell, hv]; rfl, fun hundef => ?_, Tree.formed_ofValue o v⟩
  rw [Tree.ofValue_eq_undefined_iff.1 hundef] at hblank
  cases hblank

theorem cell_of_not_tells {row : Row} (h : ¬row.Tells k) :
    row.cell o k = none ∨ row.cell o k = some .undefined := by
  rw [cell]
  cases hv : row.lookup k with
  | none => exact Or.inl rfl
  | some v =>
    have hblank : v.isBlank = true := Bool.of_not_eq_false fun hb => h ⟨v, hv, hb⟩
    exact Or.inr (congrArg some (Tree.ofValue_eq_undefined_iff.2 hblank))

theorem Tells.has {row : Row} (h : row.Tells k) : row.Has k := by
  obtain ⟨v, hv, -⟩ := h
  by_contra hnot
  rw [lookup_eq_none_iff.2 hnot] at hv
  cases hv

theorem formed_cell (row : Row) : ∀ t ∈ row.cell o k, Tree.Formed NamedByKey true false t := by
  intro t ht
  obtain ⟨v, -, rfl⟩ := Option.map_eq_some_iff.1 ht
  exact Tree.formed_ofValue o v

/-- No row tells, or there is a first one that does. -/
theorem tells_cases (k : String) (rows : List Row) :
    (∀ row ∈ rows, ¬row.Tells k) ∨ ∃ silent row rest, rows = silent ++ row :: rest ∧
      (∀ r ∈ silent, ¬r.Tells k) ∧ row.Tells k := by
  induction rows with
  | nil => exact Or.inl (by simp)
  | cons row rows ih =>
    by_cases hrow : row.Tells k
    · exact Or.inr ⟨[], row, rows, rfl, by simp, hrow⟩
    · rcases ih with hall | ⟨silent, first, rest, rfl, hsilent, hfirst⟩
      · exact Or.inl (List.forall_mem_cons.2 ⟨hrow, hall⟩)
      · exact Or.inr ⟨row :: silent, first, rest, rfl, List.forall_mem_cons.2 ⟨hrow, hsilent⟩,
          hfirst⟩

/-- At the first row that tells, the rows are split as far down as they can be. -/
theorem seenThroughout_iff {silent rest : List Row} {row : Row} (hsilent : ∀ r ∈ silent, ¬r.Tells k)
    (hrow : row.Tells k) : SeenThroughout k (silent ++ row :: rest) ↔
      (silent = [] ∨ ∃ r ∈ silent, r.Has k) ∧ ∀ r ∈ rest, r.Has k := by
  constructor
  · rintro (hall | ⟨above, below, hsplit, habove, ⟨r, hr, hk⟩, hbelow⟩)
    · refine ⟨?_, fun r hr => hall r (by simp [hr])⟩
      cases silent with
      | nil => exact Or.inl rfl
      | cons r silent => exact Or.inr ⟨r, by simp, hall r (by simp)⟩
    · obtain ⟨more, rfl, rfl⟩ : ∃ more, silent = above ++ more ∧ below = more ++ row :: rest := by
        rcases List.append_eq_append_iff.1 hsplit with ⟨more, hmore, hrest⟩ | hmore
        · -- Nothing that tells stands in the first part of the other split.
          cases more with
          | nil => exact ⟨[], by simpa using hmore.symm, by simpa using hrest.symm⟩
          | cons s more =>
            obtain ⟨rfl, -⟩ := List.cons.inj hrest
            exact absurd hrow (habove row (by simp [hmore]))
        · exact hmore
      exact ⟨Or.inr ⟨r, List.mem_append_left _ hr, hk⟩, fun s hs => hbelow s (by simp [hs])⟩
  · rintro ⟨rfl | hhas, hrest⟩
    · exact Or.inl (List.forall_mem_cons.2 ⟨hrow.has, hrest⟩)
    · exact Or.inr ⟨silent, row :: rest, rfl, hsilent, hhas,
        List.forall_mem_cons.2 ⟨hrow.has, hrest⟩⟩

theorem foldl_unify_blank {trees : List Tree} (h : ∀ t ∈ trees, t = .undefined) :
    trees.foldl (Tree.unify o) .undefined = .undefined := by
  induction trees with
  | nil => rfl
  | cons t trees ih =>
    obtain ⟨rfl, hrest⟩ := List.forall_mem_cons.1 h
    rw [List.foldl_cons, Tree.unify_self, ih hrest]

theorem blank_cells {rows : List Row} (h : ∀ row ∈ rows, ¬row.Tells k) :
    ∀ c ∈ rows.map (cell o k), c = none ∨ c = some .undefined := by
  intro c hc
  obtain ⟨row, hrow, rfl⟩ := List.mem_map.1 hc
  exact cell_of_not_tells (h row hrow)

/-- Rows that do not tell leave nothing in a column, or `undefined` if one of them has the key. -/
theorem column_of_not_tells {rows : List Row} (h : ∀ row ∈ rows, ¬row.Tells k) :
    (¬(∃ row ∈ rows, row.Has k) ∧ column o k rows = none) ∨
      ((∃ row ∈ rows, row.Has k) ∧ column o k rows = some .undefined) := by
  cases rows with
  | nil => exact Or.inl ⟨by simp, rfl⟩
  | cons row rows =>
    have hcolumn : column o k (row :: rows) =
        if ((row :: rows).map (cell o k)).all Option.isNone then none else some .undefined :=
      Tree.foldl_blank_cells o (blank_cells h)
    rw [hcolumn]
    by_cases hhas : ∃ r ∈ row :: rows, r.Has k
    · exact Or.inr ⟨hhas, if_neg fun hall => all_isNone_iff.1 hall hhas⟩
    · exact Or.inl ⟨hhas, if_pos (all_isNone_iff.2 hhas)⟩

/-- The first value that tells starts a column, marked optional if only rows without the key stand
above it. -/
theorem column_of_tells (ho : o.optionalFields = true) {silent : List Row} {row : Row}
    (hsilent : ∀ r ∈ silent, ¬r.Tells k) {t : Tree} (ht : row.cell o k = some t)
    (rest : List Row) :
    ∃ m : Bool, (m = false ↔ silent = [] ∨ ∃ r ∈ silent, r.Has k) ∧
      column o k (silent ++ row :: rest) =
        (rest.map (cell o k)).foldl (joinCells (Tree.unify o) (Tree.alone o))
          (some (t.markedIf m)) := by
  cases silent with
  | nil => exact ⟨false, by simp, by rw [List.nil_append, column, List.map_cons, ht]; rfl⟩
  | cons r silent =>
    have happend : column o k (r :: silent ++ row :: rest) =
        (rest.map (cell o k)).foldl (joinCells (Tree.unify o) (Tree.alone o))
          (joinCells (Tree.unify o) (Tree.alone o) (column o k (r :: silent)) (some t)) := by
      rw [column, List.cons_append, List.map_cons, foldCells, List.map_append, List.map_cons,
        List.foldl_append, List.foldl_cons, ht]
      rfl
    rw [happend]
    obtain ⟨hnot, hcolumn⟩ | ⟨hhas, hcolumn⟩ := column_of_not_tells (o := o) hsilent
    · refine ⟨true, by simpa using hnot, ?_⟩
      rw [hcolumn, joinCells, ← Tree.alone_markedIf ho false]
      rfl
    · refine ⟨false, by simpa using hhas, ?_⟩
      rw [hcolumn, joinCells, Tree.unify_undefined_left]
      rfl

theorem columnTree_eq {silent rest : List Row} {row : Row} (hsilent : ∀ r ∈ silent, ¬r.Tells k)
    {t : Tree} (ht : row.cell o k = some t) :
    columnTree o k (silent ++ row :: rest) =
      ((rest.map (cell o k)).filterMap id).foldl (Tree.unify o) t := by
  have hblank : (silent.filterMap (cell o k)).foldl (Tree.unify o) .undefined = .undefined := by
    refine foldl_unify_blank fun u hu => ?_
    obtain ⟨r, hr, hu⟩ := List.mem_filterMap.1 hu
    rcases cell_of_not_tells (o := o) (hsilent r hr) with hnone | hundef
    · cases hnone.symm.trans hu
    · exact (Option.some.inj (hundef.symm.trans hu)).symm
  rw [columnTree, List.filterMap_append, List.foldl_append, hblank, List.filterMap_cons_some ht,
    List.foldl_cons, Tree.unify_undefined_left, List.filterMap_map]
  rfl

/-- A column that is not empty is marked optional, unless its values have no common shape or the
rows do not show that some of them lack the key. -/
theorem column_spec (ho : o.optionalFields = true) {rows : List Row}
    (hk : ∃ row ∈ rows, row.Has k) :
    ∃ t, column o k rows = some t ∧
      (t.isOptional = false ↔ columnTree o k rows = .any ∨ SeenThroughout k rows) := by
  rcases tells_cases k rows with hsilent | ⟨silent, row, rest, rfl, hsilent, hrow⟩
  · obtain ⟨hnot, -⟩ | ⟨-, hcolumn⟩ := column_of_not_tells (o := o) hsilent
    · exact absurd hk hnot
    · refine ⟨.undefined, hcolumn, iff_of_true rfl (Or.inr (Or.inr ?_))⟩
      exact ⟨rows, [], by simp, hsilent, hk, by simp⟩
  · obtain ⟨t, ht, hne, hform⟩ := cell_of_tells (o := o) hrow
    obtain ⟨m, hm, hcolumn⟩ := column_of_tells ho hsilent ht rest
    have hcells : ∀ c ∈ rest.map (cell o k), ∀ u ∈ c, Tree.Formed NamedByKey true false u := by
      intro c hc
      obtain ⟨r, -, rfl⟩ := List.mem_map.1 hc
      exact formed_cell r
    obtain ⟨hb, hbne, hfold⟩ := Tree.foldl_telling_cells ho hcells hform hne m
    -- The mark of the first value and the marks below it are the two halves of the condition.
    refine ⟨_, hcolumn.trans hfold, ?_⟩
    rw [hb.isOptional_markedIf hbne, columnTree_eq hsilent ht, seenThroughout_iff hsilent hrow,
      Bool.or_eq_false_iff, hm, any_isNone_eq_false_iff]

/-- Where no row has the key, neither its values nor the rows hide that it is missing. -/
theorem not_seen_of_not_has {rows : List Row} (hne : rows ≠ []) (hk : ¬∃ row ∈ rows, row.Has k) :
    ¬(columnTree o k rows = .any ∨ SeenThroughout k rows) := by
  rintro (hany | hall | ⟨silent, rest, rfl, -, ⟨row, hrow, hhas⟩, -⟩)
  · have hcells : rows.filterMap (cell o k) = [] :=
      List.filterMap_eq_nil_iff.2 fun row hrow =>
        cell_eq_none_iff.2 fun hhas => hk ⟨row, hrow, hhas⟩
    rw [columnTree, hcells] at hany
    cases hany
  · obtain ⟨row, hrow⟩ := List.exists_mem_of_ne_nil rows hne
    exact hk ⟨row, hrow, hall row hrow⟩
  · exact hk ⟨row, List.mem_append_left _ hrow, hhas⟩

/-- The record that rows merge to has an unmarked field of a key if the key's values have no common
shape or the rows do not show that some of them lack it, and only then. -/
theorem exists_unmarked_iff (ho : o.optionalFields = true) {rows : List Row}
    (hrows : Mergeable rows) {G : RecordOf Tree} {marks outer : Bool}
    (hform : Tree.Formed NamedByKey marks outer (.record G))
    (hG : ∀ n, G.find? n = mergedField o rows n) (k : String) :
    (∃ f ∈ G, f.key = k ∧ f.shape.isOptional = false) ↔
      columnTree o k rows = .any ∨ SeenThroughout k rows := by
  have hnodup := hform.ascending.nodup
  have hmerged : ∀ f ∈ G, mergedField o rows f.name = some f := fun f hf =>
    (hG f.name).symm.trans ((RecordOf.find?_eq_some_iff hnodup).2 ⟨hf, rfl⟩)
  -- A key of some row has one field, since no other key becomes its identifier.
  by_cases hk : ∃ row ∈ rows, row.Has k
  · obtain ⟨row, hrow, hhas⟩ := hk
    obtain ⟨t, ht, hspec⟩ := column_spec ho ⟨row, hrow, hhas⟩
    have hfield : mergedField o rows (identifierOf k) = some ⟨identifierOf k, k, t⟩ := by
      rw [mergedField_eq_column fun r hr l hl hid =>
        hrows.identifier_inj r hr row hrow l hl k hhas hid, ht]
      rfl
    rw [← hspec]
    constructor
    · rintro ⟨f, hf, rfl, hopt⟩
      have hname : identifierOf f.key = f.name := (hform.fields f hf).1
      have hsame := (hmerged f hf).symm.trans (hname ▸ hfield)
      rwa [Option.some.inj hsame] at hopt
    · intro hopt
      have hmem := RecordOf.mem_of_find? ((hG (identifierOf k)).trans hfield)
      exact ⟨_, hmem, rfl, hopt⟩
  · refine iff_of_false ?_ (not_seen_of_not_has hrows.ne_nil hk)
    rintro ⟨f, hf, rfl, -⟩
    exact hk (exists_row_of_mergedField (hmerged f hf))

end Row

end JsonShape
