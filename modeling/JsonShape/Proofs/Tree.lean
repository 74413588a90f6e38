import JsonShape.Proofs.Fields
import JsonShape.Proofs.Lists
import Mathlib.Data.List.Induction
import Mathlib.Order.Nat

/-!
# Shapes unfolded into trees

A shape names records by their handles in a table. `RecordTable.tree` replaces every handle by the
record it stands for, all the way down, which gives a `Tree` : what the shape says, without the
table. A table is `Grounded` if each record mentions only earlier ones; then every handle has a
tree (`tree_record`), and growing the table at its end changes no tree (`Grows.tree_eq`).

If moreover no record is stored twice, handles are canonical (`tree_injective`) : shapes with the
same tree are the same shape. So a statement about shapes up to handles is one about trees.
-/

namespace JsonShape

/-- A structural type with its records spelled out. -/
inductive Tree where
  | any
  | undefined
  | bool
  | int64
  | float64
  | string
  | array (element : Tree)
  | record (fields : List (FieldOf Tree))
  | optional (inner : Tree)
deriving Inhabited

namespace Tree

theorem sizeOf_shape_lt {fs : List (FieldOf Tree)} {f : FieldOf Tree} (hf : f ∈ fs) :
    sizeOf f.shape < sizeOf (Tree.record fs) := by
  have hfield : sizeOf f.shape < sizeOf f := by
    cases f
    simp only [FieldOf.mk.sizeOf_spec]
    omega
  have hmem := List.sizeOf_lt_of_mem hf
  simp only [record.sizeOf_spec]
  omega

theorem sizeOf_pos (t : Tree) : 0 < sizeOf t := by
  refine Nat.pos_of_ne_zero ?_
  cases t <;> simp

/-- Induction over a tree, the fields of a record by membership. -/
@[induction_eliminator]
theorem induct {motive : Tree → Prop} (any : motive .any) (undefined : motive .undefined)
    (bool : motive .bool) (int64 : motive .int64) (float64 : motive .float64)
    (string : motive .string) (array : ∀ e, motive e → motive (.array e))
    (record : ∀ fs : List (FieldOf Tree), (∀ f ∈ fs, motive f.shape) → motive (.record fs))
    (optional : ∀ x, motive x → motive (.optional x)) : ∀ t, motive t
  | .any => any
  | .undefined => undefined
  | .bool => bool
  | .int64 => int64
  | .float64 => float64
  | .string => string
  | .array e =>
    array e (induct any undefined bool int64 float64 string array record optional e)
  | .record fs => record fs fun f _ =>
    induct any undefined bool int64 float64 string array record optional f.shape
  | .optional x =>
    optional x (induct any undefined bool int64 float64 string array record optional x)
termination_by t => sizeOf t
decreasing_by
  · simp_wf
  · exact sizeOf_shape_lt ‹_ ∈ fs›
  · simp_wf

end Tree

/-! ## Unfolding -/

/-- The shape with its handles replaced by the trees known for them. -/
def Shape.unfold (known : List Tree) : Shape → Tree
  | .any => .any
  | .undefined => .undefined
  | .bool => .bool
  | .int64 => .int64
  | .float64 => .float64
  | .string => .string
  | .array element => .array (element.unfold known)
  | .record handle => known[handle.toNat]?.getD .any
  | .optional inner => .optional (inner.unfold known)

/-- The handles in a shape name the first `n` records. -/
def Shape.Within (n : Nat) (s : Shape) : Prop :=
  ∀ h ∈ s.handles, 0 ≤ h ∧ h < n

/-- The shape has no parts. -/
def Shape.IsLeaf : Shape → Prop
  | .array _ | .record _ | .optional _ => False
  | _ => True

/-- The tree has no parts. -/
def Tree.IsLeaf : Tree → Prop
  | .array _ | .record _ | .optional _ => False
  | _ => True

/-- The trees of records, each from the trees of those before it. -/
def unfoldRecords (records : List Record) : List Tree :=
  records.foldl (fun known r => known ++ [.record (r.map (FieldOf.map (Shape.unfold known)))]) []

namespace RecordTable

/-- The trees of the table's records. -/
def trees (t : RecordTable) : List Tree :=
  unfoldRecords t.records

/-- The tree of a shape over the table. -/
def tree (t : RecordTable) (s : Shape) : Tree :=
  s.unfold t.trees

/-- Every record mentions only earlier ones. -/
def Grounded (t : RecordTable) : Prop :=
  ∀ (i : Nat) (r : Record), t.records[i]? = some r → ∀ f ∈ r, f.shape.Within i

/-- The second table is the first one with records added at its end. -/
structure Grows (t u : RecordTable) : Prop where
  stem : u.stem = t.stem
  records : t.records <+: u.records

end RecordTable

section Within

variable {n : Nat} {s : Shape}

@[simp] theorem Shape.within_record {h : Int} : (Shape.record h).Within n ↔ 0 ≤ h ∧ h < n := by
  simp [Within, handles]

@[simp] theorem Shape.within_array : (Shape.array s).Within n ↔ s.Within n :=
  Iff.rfl

@[simp] theorem Shape.within_optional : (Shape.optional s).Within n ↔ s.Within n :=
  Iff.rfl

theorem Shape.within_of_handles_eq_nil (h : s.handles = []) : s.Within n := by
  simp [Within, h]

theorem Shape.Within.mono {m : Nat} (h : s.Within n) (hnm : n ≤ m) : s.Within m := by
  intro x hx
  have := h x hx
  omega

end Within

theorem Shape.unfold_eq_of_prefix {known more : List Tree} (h : known <+: more) {s : Shape}
    (hs : s.Within known.length) : s.unfold more = s.unfold known := by
  induction s with
  | array e ih => rw [unfold, unfold, ih (within_array.1 hs)]
  | optional x ih => rw [unfold, unfold, ih (within_optional.1 hs)]
  | record i =>
    obtain ⟨rest, rfl⟩ := h
    have hi := within_record.1 hs
    rw [unfold, unfold, List.getElem?_append_left (by omega)]
  | _ => rfl

theorem unfoldRecords_append (rs : List Record) (r : Record) :
    unfoldRecords (rs ++ [r]) =
      unfoldRecords rs ++ [.record (r.map (FieldOf.map (Shape.unfold (unfoldRecords rs))))] := by
  simp [unfoldRecords, List.foldl_append]

@[simp] theorem length_unfoldRecords (rs : List Record) :
    (unfoldRecords rs).length = rs.length := by
  induction rs using List.reverseRecOn with
  | nil => rfl
  | append_singleton rs r ih => simp [unfoldRecords_append, ih]

theorem unfoldRecords_mono {rs more : List Record} (h : rs <+: more) :
    unfoldRecords rs <+: unfoldRecords more := by
  obtain ⟨rest, rfl⟩ := h
  induction rest using List.reverseRecOn with
  | nil => simp
  | append_singleton rest r ih =>
    rw [← List.append_assoc, unfoldRecords_append]
    exact ih.trans (List.prefix_append _ _)

namespace RecordTable

variable {t u : RecordTable}

@[simp] theorem length_trees (t : RecordTable) : t.trees.length = t.size :=
  length_unfoldRecords t.records

@[simp] theorem tree_any : t.tree .any = .any :=
  rfl

@[simp] theorem tree_undefined : t.tree .undefined = .undefined :=
  rfl

@[simp] theorem tree_bool : t.tree .bool = .bool :=
  rfl

@[simp] theorem tree_int64 : t.tree .int64 = .int64 :=
  rfl

@[simp] theorem tree_float64 : t.tree .float64 = .float64 :=
  rfl

@[simp] theorem tree_string : t.tree .string = .string :=
  rfl

@[simp] theorem tree_array (s : Shape) : t.tree (.array s) = .array (t.tree s) :=
  rfl

@[simp] theorem tree_optional (s : Shape) : t.tree (.optional s) = .optional (t.tree s) :=
  rfl

/-- A handle unfolds to its record's fields, each unfolded. -/
theorem tree_record (ht : t.Grounded) {i : Nat} {r : Record} (hr : t.records[i]? = some r) :
    t.tree (.record i) = .record (r.map (FieldOf.map t.tree)) := by
  obtain ⟨hi, rfl⟩ := List.getElem?_eq_some_iff.1 hr
  have hpre : t.records.take i ++ [t.records[i]] <+: t.records := by
    rw [List.take_append_getElem hi]
    exact List.take_prefix _ _
  have htake : unfoldRecords (t.records.take i) <+: t.trees :=
    unfoldRecords_mono (List.take_prefix _ _)
  have hlen : (unfoldRecords (t.records.take i)).length = i := by simp; omega
  obtain ⟨rest, hrest⟩ := unfoldRecords_mono hpre
  have hget : t.trees[i]? = some (.record (t.records[i].map
      (FieldOf.map (Shape.unfold (unfoldRecords (t.records.take i)))))) := by
    rw [trees, ← hrest, unfoldRecords_append, List.append_assoc,
      List.getElem?_append_right hlen.le, hlen]
    simp
  simp only [tree, Shape.unfold, Int.toNat_natCast, hget, Option.getD_some, Tree.record.injEq]
  refine List.map_congr_left fun f hf => ?_
  have hw : f.shape.Within (unfoldRecords (t.records.take i)).length :=
    hlen.symm ▸ ht i _ hr f hf
  simp only [FieldOf.map, tree, Shape.unfold_eq_of_prefix htake hw]

theorem exists_record {h : Int} (hs : (Shape.record h).Within t.size) :
    ∃ (i : Nat) (r : Record), h = i ∧ t.records[i]? = some r := by
  obtain ⟨h0, hlt⟩ := Shape.within_record.1 hs
  obtain ⟨i, rfl⟩ := Int.eq_ofNat_of_zero_le h0
  have hi : i < t.records.length := Int.ofNat_lt.1 hlt
  exact ⟨i, t.records[i], rfl, List.getElem?_eq_getElem hi⟩

/-- The fields of a stored record name records of the table. -/
theorem Grounded.within (ht : t.Grounded) {i : Nat} {r : Record} (hr : t.records[i]? = some r)
    {f : Field} (hf : f ∈ r) : f.shape.Within t.size :=
  (ht i r hr f hf).mono (le_of_lt (List.getElem?_eq_some_iff.1 hr).1)

namespace Grows

theorem refl (t : RecordTable) : t.Grows t :=
  ⟨rfl, List.prefix_refl _⟩

theorem trans {v : RecordTable} (h : t.Grows u) (h' : u.Grows v) : t.Grows v :=
  ⟨h'.stem.trans h.stem, h.records.trans h'.records⟩

theorem size_le (h : t.Grows u) : t.size ≤ u.size :=
  h.records.length_le

theorem within (h : t.Grows u) {s : Shape} (hs : s.Within t.size) : s.Within u.size :=
  hs.mono h.size_le

theorem tree_eq (h : t.Grows u) {s : Shape} (hs : s.Within t.size) : u.tree s = t.tree s :=
  Shape.unfold_eq_of_prefix (unfoldRecords_mono h.records) ((length_trees t).symm ▸ hs)

end Grows

/-! ## Canonical handles -/

/-- A shape whose tree is a record is a handle of a record with these fields. -/
theorem eq_record_of_tree (ht : t.Grounded) {s : Shape} (hs : s.Within t.size)
    {fs : List (FieldOf Tree)} (h : t.tree s = .record fs) :
    ∃ (i : Nat) (r : Record), s = .record i ∧ t.records[i]? = some r ∧
      r.map (FieldOf.map t.tree) = fs := by
  cases s with
  | record j =>
    obtain ⟨i, r, rfl, hr⟩ := exists_record hs
    rw [tree_record ht hr] at h
    exact ⟨i, r, rfl, hr, Tree.record.inj h⟩
  | _ => simp at h

theorem eq_array_of_tree (ht : t.Grounded) {s : Shape} (hs : s.Within t.size) {e : Tree}
    (h : t.tree s = .array e) : ∃ x, s = .array x ∧ t.tree x = e := by
  cases s with
  | array x => exact ⟨x, rfl, Tree.array.inj h⟩
  | record j =>
    obtain ⟨i, r, rfl, hr⟩ := exists_record hs
    simp [tree_record ht hr] at h
  | _ => simp at h

theorem eq_optional_of_tree (ht : t.Grounded) {s : Shape} (hs : s.Within t.size) {x : Tree}
    (h : t.tree s = .optional x) : ∃ y, s = .optional y ∧ t.tree y = x := by
  cases s with
  | optional y => exact ⟨y, rfl, Tree.optional.inj h⟩
  | record j =>
    obtain ⟨i, r, rfl, hr⟩ := exists_record hs
    simp [tree_record ht hr] at h
  | _ => simp at h

theorem isLeaf_of_tree (ht : t.Grounded) {s : Shape} (hs : s.Within t.size)
    (h : (t.tree s).IsLeaf) : s.IsLeaf := by
  cases s with
  | record j =>
    obtain ⟨i, r, rfl, hr⟩ := exists_record hs
    rw [tree_record ht hr] at h
    exact h
  | _ => exact h

/-- A shape without parts is known from its tree. -/
theorem eq_leaf_of_tree (ht : t.Grounded) {s leaf : Shape} (hs : s.Within t.size)
    (hl : leaf.IsLeaf) (h : t.tree s = t.tree leaf) : s = leaf := by
  cases s with
  | record j =>
    obtain ⟨i, r, rfl, hr⟩ := exists_record hs
    rw [tree_record ht hr] at h
    cases leaf <;> simp_all [Shape.IsLeaf]
  | _ => cases leaf <;> simp_all [Shape.IsLeaf]

/-- Shapes with the same tree are the same, where no record is stored twice. -/
theorem tree_injective (ht : t.Grounded) (hn : t.records.Nodup) {a b : Shape}
    (ha : a.Within t.size) (hb : b.Within t.size) (h : t.tree a = t.tree b) : a = b := by
  generalize hT : t.tree b = T at h
  induction T generalizing a b with
  | record fs ih =>
    obtain ⟨i, r, rfl, hr, rfl⟩ := eq_record_of_tree ht ha h
    obtain ⟨j, q, rfl, hq, hqr⟩ := eq_record_of_tree ht hb hT
    have hrq : q = r := by
      refine (eq_map_of_map_eq_map hqr.symm fun f hf g hg hfg => ?_).trans (List.map_id r)
      obtain ⟨hname, hkey, hshape⟩ := FieldOf.mk.inj hfg
      have hs : f.shape = g.shape := ih _ (List.mem_map_of_mem hf) (ht.within hr hf)
        (ht.within hq hg) hshape.symm rfl
      cases f
      cases g
      simp_all
    have hij : i = j :=
      (List.getElem?_inj (List.getElem?_eq_some_iff.1 hr).1 hn).1 (by rw [hr, hq, hrq])
    rw [hij]
  | array e ih =>
    obtain ⟨x, rfl, hx⟩ := eq_array_of_tree ht ha h
    obtain ⟨y, rfl, hy⟩ := eq_array_of_tree ht hb hT
    rw [Shape.within_array] at ha hb
    rw [ih ha hb hy hx]
  | optional x ih =>
    obtain ⟨x, rfl, hx⟩ := eq_optional_of_tree ht ha h
    obtain ⟨y, rfl, hy⟩ := eq_optional_of_tree ht hb hT
    rw [Shape.within_optional] at ha hb
    rw [ih ha hb hy hx]
  | any | undefined | bool | int64 | float64 | string =>
    have hl : b.IsLeaf := isLeaf_of_tree ht hb (hT ▸ trivial)
    exact eq_leaf_of_tree ht ha hl (h.trans hT.symm)

end RecordTable

end JsonShape
