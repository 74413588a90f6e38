import JsonShape.Proofs.Tree

/-!
# Unification of trees

The unifier on trees, where a record stands for itself and no table is needed. `rule` says what the
order of the rules makes of two trees before anything inside them is looked at; `unifyWithin`
follows the rules to a bounded depth, as unification over a table does, and `unify` is its result
at a depth that is enough (`unify_eq_of_unifyWithin`).

A depth is enough because of `Fits` : the depth of nested arrays and records does not grow under
unification (`depth_unify_le`), and neither does the longest run of optional marks. This holds even
where a record repeats a name, so that a result is unified once more within the same merge.

`unify_array`, `unify_record` and `unify_inside` are the equations that later proofs use; none of
them looks at the depth again.
-/

namespace JsonShape

namespace Tree

/-- The tree is marked optional. -/
def isOptional : Tree → Bool
  | .optional _ => true
  | _ => false

/-- One of the two number trees. -/
def isNumeric : Tree → Bool
  | .int64 | .float64 => true
  | _ => false

/-- Marks a tree optional; `any`, `undefined` and optional trees stay as they are. -/
def markOptional : Tree → Tree
  | .any => .any
  | .undefined => .undefined
  | .optional inner => .optional inner
  | t => .optional t

/-- The tree under an optional mark. -/
def dropOptional : Tree → Tree
  | .optional inner => inner
  | t => t

/-- Tree of a field that only one of two merged records has. -/
def alone (o : Options) (t : Tree) : Tree :=
  if o.optionalFields then t.markOptional else t

theorem eq_optional_of_isOptional {t : Tree} (h : t.isOptional) : ∃ x, t = .optional x := by
  cases t <;> simp_all [isOptional]

theorem dropOptional_eq_self {t : Tree} (h : t.isOptional = false) : t.dropOptional = t := by
  cases t <;> simp_all [isOptional, dropOptional]

/-! ## The rules -/

/-- What is to be done with two trees. -/
inductive Rule where
  /-- Nothing inside matters. -/
  | settled (t : Tree)
  /-- Unify below the optional marks. -/
  | inside
  /-- Unify the elements of two arrays. -/
  | elements (x y : Tree)
  /-- Merge the fields of two records. -/
  | fields (fs gs : List (FieldOf Tree))

/-- The rule for two trees of which neither gives way to the other. -/
def partsRule : Tree → Tree → Rule
  | .array x, .array y => .elements x y
  | .record fs, .record gs => .fields fs gs
  | _, _ => .settled .any

open Classical in
/-- The first rule that applies to two trees. -/
noncomputable def rule (a b : Tree) : Rule :=
  if a = .any ∨ b = .any then .settled .any
  else if a = b then .settled a
  else if a = .undefined then .settled b
  else if b = .undefined then .settled a
  else if a.isOptional ∨ b.isOptional then .inside
  else if a.isNumeric ∧ b.isNumeric then .settled .float64
  else if (a.isNumeric ∧ b = .string) ∨ (a = .string ∧ b.isNumeric) then .settled .string
  else partsRule a b

/-- One rule followed, with `join` for what is inside. -/
noncomputable def unifyStep (o : Options) (join : Tree → Tree → Option Tree) (a b : Tree) :
    Option Tree :=
  match rule a b with
  | .settled t => some t
  | .inside => (join a.dropOptional b.dropOptional).map markOptional
  | .elements x y => (join x y).map .array
  | .fields fs gs =>
    (RecordOf.merge (alone o) join fs gs).map fun m => .record (RecordOf.sorted m)

/-- Unification to a bounded depth. -/
noncomputable def unifyWithin (o : Options) : Nat → Tree → Tree → Option Tree
  | 0 => fun _ _ => none
  | depth + 1 => unifyStep o (unifyWithin o depth)

/-- The tree that two trees unify to. -/
noncomputable def unify (o : Options) (a b : Tree) : Tree :=
  let n := sizeOf a + sizeOf b
  (unifyWithin o ((n + 1) * (n + 1)) a b).getD .any

/-- What a rule says of the trees it applies to. -/
theorem rule_cases (a b : Tree) :
    (∃ t, rule a b = .settled t ∧ (t.IsLeaf ∨ t = a ∨ t = b)) ∨
      (rule a b = .inside ∧ (a.isOptional ∨ b.isOptional)) ∨
      (∃ x y, a = .array x ∧ b = .array y ∧ rule a b = .elements x y) ∨
      ∃ fs gs, a = .record fs ∧ b = .record gs ∧ rule a b = .fields fs gs := by
  generalize hr : rule a b = r
  unfold rule at hr
  split_ifs at hr with h1 h2 h3 h4 h5 h6 h7
  · exact Or.inl ⟨_, hr.symm, Or.inl trivial⟩
  · exact Or.inl ⟨_, hr.symm, Or.inr (Or.inl rfl)⟩
  · exact Or.inl ⟨_, hr.symm, Or.inr (Or.inr rfl)⟩
  · exact Or.inl ⟨_, hr.symm, Or.inr (Or.inl rfl)⟩
  · exact Or.inr (Or.inl ⟨hr.symm, h5⟩)
  · exact Or.inl ⟨_, hr.symm, Or.inl trivial⟩
  · exact Or.inl ⟨_, hr.symm, Or.inl trivial⟩
  · unfold partsRule at hr
    split at hr
    · exact Or.inr (Or.inr (Or.inl ⟨_, _, rfl, rfl, hr.symm⟩))
    · exact Or.inr (Or.inr (Or.inr ⟨_, _, rfl, rfl, hr.symm⟩))
    · exact Or.inl ⟨_, hr.symm, Or.inl trivial⟩

theorem unifyStep_mono {o : Options} {join more : Tree → Tree → Option Tree}
    (h : ∀ x y z, join x y = some z → more x y = some z) {a b c : Tree}
    (hc : unifyStep o join a b = some c) : unifyStep o more a b = some c := by
  unfold unifyStep at hc ⊢
  split at hc
  · exact hc
  · obtain ⟨x, hx, rfl⟩ := Option.map_eq_some_iff.1 hc
    simp [h _ _ _ hx]
  · obtain ⟨x, hx, rfl⟩ := Option.map_eq_some_iff.1 hc
    simp [h _ _ _ hx]
  · obtain ⟨m, hm, rfl⟩ := Option.map_eq_some_iff.1 hc
    simp [RecordOf.merge_mono h hm]

theorem unifyWithin_succ {o : Options} {n : Nat} {a b c : Tree}
    (h : unifyWithin o n a b = some c) : unifyWithin o (n + 1) a b = some c := by
  induction n generalizing a b c with
  | zero => simp [unifyWithin] at h
  | succ n ih => exact unifyStep_mono (fun _ _ _ => ih) h

/-- More depth keeps a result. -/
theorem unifyWithin_mono {o : Options} {n m : Nat} (hnm : n ≤ m) {a b c : Tree}
    (h : unifyWithin o n a b = some c) : unifyWithin o m a b = some c := by
  induction hnm with
  | refl => exact h
  | step _ ih => exact unifyWithin_succ ih

theorem unifyWithin_unique {o : Options} {n m : Nat} {a b c d : Tree}
    (hc : unifyWithin o n a b = some c) (hd : unifyWithin o m a b = some d) : c = d := by
  have hc' := unifyWithin_mono (le_max_left n m) hc
  have hd' := unifyWithin_mono (le_max_right n m) hd
  exact Option.some.inj (hc'.symm.trans hd')

/-! ## Enough depth -/

/-- The tree nests at most `d` arrays and records; it has at most `k` optional marks outermost and
elsewhere at most `K` in a row. -/
inductive Fits (K : Nat) : Nat → Nat → Tree → Prop
  | leaf {t : Tree} (h : t.IsLeaf) (k d : Nat) : Fits K k d t
  | array {e : Tree} {d : Nat} (h : Fits K K d e) (k : Nat) : Fits K k (d + 1) (.array e)
  | record {fs : List (FieldOf Tree)} {d : Nat} (h : ∀ f ∈ fs, Fits K K d f.shape) (k : Nat) :
    Fits K k (d + 1) (.record fs)
  | optional {x : Tree} {k d : Nat} (h : Fits K k d x) : Fits K (k + 1) d (.optional x)

theorem Fits.mono {K k d : Nat} {t : Tree} (h : Fits K k d t) :
    ∀ {k' d' : Nat}, k ≤ k' → d ≤ d' → Fits K k' d' t := by
  induction h with
  | leaf h => exact fun _ _ => Fits.leaf h _ _
  | array _ _ ih =>
    intro k' d' _ hd
    obtain ⟨d', rfl⟩ := Nat.exists_eq_add_of_lt hd
    exact Fits.array (ih le_rfl (by omega)) k'
  | record _ _ ih =>
    intro k' d' _ hd
    obtain ⟨d', rfl⟩ := Nat.exists_eq_add_of_lt hd
    exact Fits.record (fun f hf => ih f hf le_rfl (by omega)) k'
  | optional _ ih =>
    intro k' d' hk hd
    obtain ⟨k', rfl⟩ := Nat.exists_eq_add_of_lt hk
    exact Fits.optional (ih (by omega) hd)

/-- Without an outermost mark, no allowance for one is needed. -/
theorem Fits.of_not_isOptional {K k d : Nat} {t : Tree} (h : Fits K k d t)
    (ht : t.isOptional = false) (k' : Nat) : Fits K k' d t := by
  cases h with
  | leaf h => exact Fits.leaf h _ _
  | array h => exact Fits.array h _
  | record h => exact Fits.record h _
  | optional h => simp [isOptional] at ht

theorem Fits.of_optional {K k d : Nat} {x : Tree} (h : Fits K k d (.optional x)) :
    ∃ k', k = k' + 1 ∧ Fits K k' d x := by
  cases h with
  | leaf h => exact h.elim
  | optional h => exact ⟨_, rfl, h⟩

theorem Fits.dropOptional {K k d : Nat} {t : Tree} (h : Fits K (k + 1) d t) :
    Fits K k d t.dropOptional := by
  cases ht : t.isOptional with
  | false =>
    rw [dropOptional_eq_self ht]
    exact h.of_not_isOptional ht k
  | true =>
    obtain ⟨x, rfl⟩ := eq_optional_of_isOptional ht
    obtain ⟨k', hk, hx⟩ := h.of_optional
    exact Nat.succ.inj hk ▸ hx

theorem Fits.markOptional {K k d : Nat} {t : Tree} (h : Fits K k d t) :
    Fits K (k + 1) d t.markOptional := by
  cases t with
  | any | undefined => exact Fits.leaf (by trivial) _ _
  | optional x => exact h.mono (Nat.le_succ k) le_rfl
  | _ => exact Fits.optional h

theorem Fits.alone {K d : Nat} (hK : 1 ≤ K) (o : Options) {t : Tree} (h : Fits K K d t) :
    Fits K K d (t.alone o) := by
  unfold Tree.alone
  split
  · cases ht : t.isOptional with
    | false => exact (h.of_not_isOptional ht 0).markOptional.mono hK le_rfl
    | true =>
      obtain ⟨x, rfl⟩ := eq_optional_of_isOptional ht
      exact h
  · exact h

/-! ### Nesting -/

mutual

/-- How deep arrays and records are nested in the tree. Optional marks do not count. -/
def depth : Tree → Nat
  | .array element => element.depth + 1
  | .record fields => depthFields fields + 1
  | .optional inner => inner.depth
  | _ => 0

/-- The largest depth of a field. -/
def depthFields : List (FieldOf Tree) → Nat
  | [] => 0
  | ⟨_, _, shape⟩ :: rest => max shape.depth (depthFields rest)

end

theorem depthFields_le_iff {fs : List (FieldOf Tree)} {d : Nat} :
    depthFields fs ≤ d ↔ ∀ f ∈ fs, f.shape.depth ≤ d := by
  induction fs with
  | nil => simp [depthFields]
  | cons f fs ih => rw [depthFields, Nat.max_le, ih, List.forall_mem_cons]

theorem depth_leaf {t : Tree} (h : t.IsLeaf) : t.depth = 0 := by
  cases t with
  | array | record | optional => exact h.elim
  | _ => simp [depth]

theorem depth_le_sizeOf (t : Tree) : t.depth ≤ sizeOf t := by
  induction t with
  | array e ih =>
    simp only [depth, array.sizeOf_spec]
    omega
  | record fs ih =>
    have hfields : depthFields fs ≤ sizeOf (Tree.record fs) - 1 :=
      depthFields_le_iff.2 fun f hf => by
        have hlt := sizeOf_shape_lt hf
        have hle := ih f hf
        omega
    have hpos := sizeOf_pos (.record fs)
    rw [depth]
    omega
  | optional x ih =>
    simp only [depth, optional.sizeOf_spec]
    omega
  | _ =>
    rw [depth_leaf (by trivial)]
    exact Nat.zero_le _

theorem Fits.depth_le {K k d : Nat} {t : Tree} (h : Fits K k d t) : t.depth ≤ d := by
  induction h with
  | leaf h =>
    rw [depth_leaf h]
    exact Nat.zero_le _
  | array _ _ ih =>
    rw [depth]
    omega
  | record _ _ ih =>
    have hfields := depthFields_le_iff.2 ih
    rw [depth]
    omega
  | optional _ ih =>
    rw [depth]
    exact ih

/-- A tree fits its own depth, with room for as many marks as it has parts. -/
theorem fits_of_depth_le {K : Nat} {t : Tree} (hK : sizeOf t ≤ K) :
    ∀ {k d : Nat}, sizeOf t ≤ k → t.depth ≤ d → Fits K k d t := by
  induction t with
  | array e ih =>
    intro k d _ hd
    rw [depth] at hd
    simp only [array.sizeOf_spec] at hK
    obtain ⟨d, rfl⟩ := Nat.exists_eq_add_of_lt hd
    exact Fits.array (ih (by omega) (by omega) (by omega)) k
  | record fs ih =>
    intro k d _ hd
    rw [depth] at hd
    obtain ⟨d, rfl⟩ := Nat.exists_eq_add_of_lt hd
    refine Fits.record (fun f hf => ?_) k
    have hlt := sizeOf_shape_lt hf
    have hdepth := depthFields_le_iff.1 (Nat.le_refl (depthFields fs)) f hf
    exact ih f hf (by omega) (by omega) (by omega)
  | optional x ih =>
    intro k d hk hd
    rw [depth] at hd
    simp only [optional.sizeOf_spec] at hK hk
    obtain ⟨k, rfl⟩ := Nat.exists_eq_add_of_lt (show 0 < k by omega)
    exact Fits.optional (ih (by omega) (by omega) hd)
  | _ => exact fun _ _ => Fits.leaf (by trivial) _ _

/-- Unification to a depth that is enough has a result, which fits where the two trees do. -/
theorem exists_unifyWithin (o : Options) {K : Nat} (hK : 1 ≤ K) :
    ∀ {n k d : Nat} {a b : Tree}, k + d * (K + 1) < n → Fits K k d a → Fits K k d b →
      ∃ c, unifyWithin o n a b = some c ∧ Fits K k d c
  | 0, _, _, _, _, hn, _, _ => absurd hn (Nat.not_lt_zero _)
  | n + 1, k, d, a, b, hn, ha, hb => by
    rw [unifyWithin, unifyStep]
    rcases rule_cases a b with ⟨t, ht, h⟩ | ⟨hi, h⟩ | ⟨x, y, rfl, rfl, he⟩ |
      ⟨fs, gs, rfl, rfl, hf⟩
    · rw [ht]
      refine ⟨t, rfl, ?_⟩
      rcases h with h | rfl | rfl
      · exact Fits.leaf h k d
      · exact ha
      · exact hb
    · rw [hi]
      obtain ⟨k, rfl⟩ : ∃ k', k = k' + 1 := by
        rcases h with h | h
        · obtain ⟨x, rfl⟩ := eq_optional_of_isOptional h
          exact ha.of_optional.imp fun _ => And.left
        · obtain ⟨x, rfl⟩ := eq_optional_of_isOptional h
          exact hb.of_optional.imp fun _ => And.left
      obtain ⟨c, hc, hfits⟩ := exists_unifyWithin o hK (n := n) (by omega) ha.dropOptional
        hb.dropOptional
      exact ⟨c.markOptional, by simp [hc], hfits.markOptional⟩
    · rw [he]
      cases ha with
      | leaf h => exact h.elim
      | @array _ d hx =>
        cases hb with
        | leaf h => exact h.elim
        | array hy =>
          have hn' : K + d * (K + 1) < n := by
            rw [Nat.add_mul, Nat.one_mul] at hn
            omega
          obtain ⟨c, hc, hfits⟩ := exists_unifyWithin o hK hn' hx hy
          exact ⟨.array c, by simp [hc], Fits.array hfits k⟩
    · rw [hf]
      cases ha with
      | leaf h => exact h.elim
      | @record _ d hx =>
        cases hb with
        | leaf h => exact h.elim
        | record hy =>
          have hn' : K + d * (K + 1) < n := by
            rw [Nat.add_mul, Nat.one_mul] at hn
            omega
          obtain ⟨m, hm, hfits⟩ := RecordOf.exists_merge (fun _ => Fits.alone hK o)
            (fun _ _ => exists_unifyWithin o hK hn') hx hy
          refine ⟨.record (RecordOf.sorted m), by simp [hm], Fits.record (fun f hf => ?_) k⟩
          exact hfits f (RecordOf.mem_sorted.1 hf)

/-- The depth that `unify` allows is enough, and the result nests no deeper than the two trees. -/
theorem unifyWithin_eq_unify_and_depth_le (o : Options) (a b : Tree) :
    unifyWithin o ((sizeOf a + sizeOf b + 1) * (sizeOf a + sizeOf b + 1)) a b =
      some (unify o a b) ∧ (unify o a b).depth ≤ max a.depth b.depth := by
  have hs : 0 < sizeOf a := sizeOf_pos a
  have hdepth : max a.depth b.depth ≤ sizeOf a + sizeOf b := by
    have ha := depth_le_sizeOf a
    have hb := depth_le_sizeOf b
    omega
  have hlt : sizeOf a + sizeOf b + max a.depth b.depth * (sizeOf a + sizeOf b + 1) <
      (sizeOf a + sizeOf b + 1) * (sizeOf a + sizeOf b + 1) := by
    have hle := Nat.mul_le_mul_right (sizeOf a + sizeOf b + 1) hdepth
    rw [Nat.add_mul _ 1, Nat.one_mul]
    omega
  obtain ⟨c, hc, hfits⟩ := exists_unifyWithin o (K := sizeOf a + sizeOf b) (by omega) hlt
    (fits_of_depth_le (t := a) (by omega) (by omega) (Nat.le_max_left ..))
    (fits_of_depth_le (t := b) (by omega) (by omega) (Nat.le_max_right ..))
  rw [unify, hc, Option.getD_some]
  exact ⟨rfl, hfits.depth_le⟩

theorem unifyWithin_eq_unify (o : Options) (a b : Tree) :
    unifyWithin o ((sizeOf a + sizeOf b + 1) * (sizeOf a + sizeOf b + 1)) a b =
      some (unify o a b) :=
  (unifyWithin_eq_unify_and_depth_le o a b).1

/-- Unification does not nest deeper. -/
theorem depth_unify_le (o : Options) (a b : Tree) :
    (unify o a b).depth ≤ max a.depth b.depth :=
  (unifyWithin_eq_unify_and_depth_le o a b).2

/-- A result at any depth is the result. -/
theorem unify_eq_of_unifyWithin {o : Options} {n : Nat} {a b c : Tree}
    (h : unifyWithin o n a b = some c) : unify o a b = c :=
  unifyWithin_unique (unifyWithin_eq_unify o a b) h

/-! ## Equations -/

/-- One rule, and unification of what is inside. -/
theorem unifyStep_unify (o : Options) (a b : Tree) :
    unifyStep o (fun x y => some (unify o x y)) a b = some (unify o a b) := by
  have h := unifyWithin_succ (unifyWithin_eq_unify o a b)
  exact unifyStep_mono (fun x y z hz => by rw [unify_eq_of_unifyWithin hz]) h

theorem unify_settled {o : Options} {a b t : Tree} (h : rule a b = .settled t) :
    unify o a b = t := by
  have hstep := unifyStep_unify o a b
  rw [unifyStep, h] at hstep
  exact (Option.some.inj hstep).symm

theorem unify_inside {o : Options} {a b : Tree} (h : rule a b = .inside) :
    unify o a b = (unify o a.dropOptional b.dropOptional).markOptional := by
  have hstep := unifyStep_unify o a b
  rw [unifyStep, h] at hstep
  exact (Option.some.inj hstep).symm

@[simp] theorem unify_any_left (o : Options) (b : Tree) : unify o .any b = .any :=
  unify_settled (by simp [rule])

@[simp] theorem unify_any_right (o : Options) (a : Tree) : unify o a .any = .any :=
  unify_settled (by simp [rule])

@[simp] theorem unify_self (o : Options) (a : Tree) : unify o a a = a := by
  by_cases h : a = .any
  · rw [h, unify_any_left]
  · exact unify_settled (by simp [rule, h])

@[simp] theorem unify_undefined_left (o : Options) (b : Tree) : unify o .undefined b = b := by
  by_cases h : b = .any
  · rw [h, unify_any_right]
  by_cases h' : Tree.undefined = b
  · rw [← h', unify_self]
  · exact unify_settled (by simp [rule, h, h'])

@[simp] theorem unify_undefined_right (o : Options) (a : Tree) : unify o a .undefined = a := by
  by_cases h : a = .any
  · rw [h, unify_any_left]
  by_cases h' : a = .undefined
  · rw [h', unify_self]
  · exact unify_settled (by simp [rule, h, h'])

@[simp] theorem unify_array (o : Options) (x y : Tree) :
    unify o (.array x) (.array y) = .array (unify o x y) := by
  by_cases h : x = y
  · rw [h, unify_self, unify_self]
  · have hr : rule (.array x) (.array y) = .elements x y := by
      simp [rule, partsRule, h, isOptional, isNumeric]
    have hstep := unifyStep_unify o (.array x) (.array y)
    rw [unifyStep, hr] at hstep
    exact (Option.some.inj hstep).symm

/-- Records whose names stand once merge field by field. -/
theorem unify_record (o : Options) {fs gs : List (FieldOf Tree)} (hf : RecordOf.Ascending fs)
    (hg : RecordOf.Ascending gs) :
    unify o (.record fs) (.record gs) =
      .record (RecordOf.sorted (RecordOf.combine (unify o) (alone o) fs gs)) := by
  by_cases h : fs = gs
  · subst h
    have hself : RecordOf.combine (unify o) (alone o) fs fs = fs := by
      have hfilter : (fs.filter fun g => g.name ∉ RecordOf.names fs) = [] := by
        rw [List.filter_eq_nil_iff]
        intro f hm
        simpa using RecordOf.name_mem_names hm
      rw [RecordOf.combine, hfilter, List.map_nil, List.append_nil]
      refine (List.map_congr_left fun f hm => ?_).trans (List.map_id fs)
      rw [RecordOf.paired_of_mem _ _ hf.nodup hm rfl, unify_self, id_eq]
    rw [unify_self, hself, RecordOf.sorted_eq_self hf]
  · have hr : rule (.record fs) (.record gs) = .fields fs gs := by
      simp [rule, partsRule, h, isOptional, isNumeric]
    have hstep := unifyStep_unify o (.record fs) (.record gs)
    have hm : RecordOf.merge (alone o) (fun x y => some (unify o x y)) fs gs =
        some (RecordOf.combine (unify o) (alone o) fs gs) :=
      RecordOf.merge_eq_combine (alone o) hf.nodup hg.nodup fun _ _ _ _ _ => rfl
    simp only [unifyStep, hr, hm, Option.map_some] at hstep
    exact (Option.some.inj hstep).symm

end Tree

end JsonShape
