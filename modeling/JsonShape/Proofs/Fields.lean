import JsonShape.Shape.Unify
import Mathlib.Data.List.Nodup

/-!
# Fields by name

What the operations on fields do when every name stands once. A name then picks out one field
(`find?_eq_some_iff`), sorting forgets the order in which fields were given (`sorted_eq_of_perm`),
and merging is a description by cases (`merge_eq_combine`) : a field of both sides is combined and
keeps its left key, a field of one side is marked.

Renaming what fields are described by commutes with every operation, whether names repeat or not.
-/

namespace JsonShape

variable {α β : Type}

@[simp] theorem FieldOf.map_name (g : α → β) (f : FieldOf α) : (f.map g).name = f.name :=
  rfl

@[simp] theorem FieldOf.map_key (g : α → β) (f : FieldOf α) : (f.map g).key = f.key :=
  rfl

@[simp] theorem FieldOf.map_shape (g : α → β) (f : FieldOf α) : (f.map g).shape = g f.shape :=
  rfl

theorem FieldOf.map_map {γ : Type} (g : β → γ) (h : α → β) (f : FieldOf α) :
    (f.map h).map g = f.map (g ∘ h) :=
  rfl

@[simp] theorem FieldOf.map_id (f : FieldOf α) : f.map id = f :=
  rfl

namespace RecordOf

/-! ## Names -/

theorem mem_names {r : RecordOf α} {n : String} : n ∈ r.names ↔ ∃ f ∈ r, f.name = n :=
  List.mem_map

theorem name_mem_names {r : RecordOf α} {f : FieldOf α} (h : f ∈ r) : f.name ∈ r.names :=
  mem_names.2 ⟨f, h, rfl⟩

@[simp] theorem names_nil : names ([] : RecordOf α) = [] :=
  rfl

@[simp] theorem names_cons (f : FieldOf α) (r : RecordOf α) :
    names (f :: r) = f.name :: names r :=
  rfl

@[simp] theorem names_append (r s : RecordOf α) : names (r ++ s) = names r ++ names s :=
  List.map_append

@[simp] theorem names_map (g : α → β) (r : RecordOf α) :
    names (r.map (FieldOf.map g)) = r.names := by
  simp [names, Function.comp_def]

/-- Two fields of one name are one field. -/
theorem eq_of_name_eq {r : RecordOf α} (hr : r.names.Nodup) {f g : FieldOf α} (hf : f ∈ r)
    (hg : g ∈ r) (h : f.name = g.name) : f = g :=
  List.inj_on_of_nodup_map hr hf hg h

/-! ## Finding a field -/

@[simp] theorem find?_eq_none_iff {r : RecordOf α} {n : String} :
    r.find? n = none ↔ n ∉ r.names := by
  simp [find?, List.find?_eq_none, mem_names]

theorem mem_of_find? {r : RecordOf α} {n : String} {f : FieldOf α} (h : r.find? n = some f) :
    f ∈ r :=
  List.mem_of_find?_eq_some h

theorem name_of_find? {r : RecordOf α} {n : String} {f : FieldOf α} (h : r.find? n = some f) :
    f.name = n := by
  simpa using List.find?_some h

theorem exists_find? {r : RecordOf α} {n : String} (h : n ∈ r.names) : ∃ f, r.find? n = some f := by
  rw [← Option.ne_none_iff_exists', ne_eq, find?_eq_none_iff, not_not]
  exact h

theorem find?_eq_some_iff {r : RecordOf α} (hr : r.names.Nodup) {n : String} {f : FieldOf α} :
    r.find? n = some f ↔ f ∈ r ∧ f.name = n := by
  constructor
  · intro h
    exact ⟨mem_of_find? h, name_of_find? h⟩
  · rintro ⟨hf, rfl⟩
    obtain ⟨g, hg⟩ := exists_find? (name_mem_names hf)
    rw [hg, eq_of_name_eq hr (mem_of_find? hg) hf (name_of_find? hg)]

@[simp] theorem find?_map (g : α → β) (r : RecordOf α) (n : String) :
    find? (r.map (FieldOf.map g)) n = (r.find? n).map (FieldOf.map g) := by
  simp [find?, Function.comp_def]

theorem find?_cons (f : FieldOf α) (r : RecordOf α) (n : String) :
    find? (f :: r) n = if f.name = n then some f else r.find? n := by
  by_cases h : f.name = n <;> simp [find?, h]

/-! ## Sorting -/

theorem sorted_perm (r : RecordOf α) : (sorted r).Perm r :=
  List.mergeSort_perm r _

@[simp] theorem mem_sorted {r : RecordOf α} {f : FieldOf α} : f ∈ sorted r ↔ f ∈ r :=
  (sorted_perm r).mem_iff

theorem names_sorted_perm (r : RecordOf α) : (sorted r).names.Perm r.names :=
  (sorted_perm r).map _

theorem pairwise_sorted (r : RecordOf α) : (sorted r).Pairwise fun f g => f.name ≤ g.name := by
  have trans : ∀ f g h : FieldOf α, decide (f.name ≤ g.name) → decide (g.name ≤ h.name) →
      decide (f.name ≤ h.name) := by
    simpa using fun f g h : FieldOf α => String.le_trans
  have total : ∀ f g : FieldOf α, decide (f.name ≤ g.name) || decide (g.name ≤ f.name) := by
    simpa using fun f g : FieldOf α => String.le_total f.name g.name
  simpa [sorted] using List.pairwise_mergeSort trans total r

/-- The names are strictly increasing : sorted, and each once. -/
def Ascending (r : RecordOf α) : Prop :=
  r.names.Pairwise (· < ·)

theorem Ascending.nodup {r : RecordOf α} (h : r.Ascending) : r.names.Nodup :=
  List.Pairwise.imp String.ne_of_lt h

theorem ascending_sorted {r : RecordOf α} (hr : r.names.Nodup) : (sorted r).Ascending := by
  have hle : (sorted r).names.Pairwise (· ≤ ·) := List.pairwise_map.2 (pairwise_sorted r)
  have hne : (sorted r).names.Nodup := (names_sorted_perm r).nodup_iff.2 hr
  refine (List.Pairwise.and hle hne).imp fun {m n} h => ?_
  rw [← String.not_le]
  exact fun hge => h.2 (String.le_antisymm h.1 hge)

/-- Two ascending records with the same fields are the same. -/
theorem eq_of_perm_of_ascending {r s : RecordOf α} (hr : r.Ascending) (hs : s.Ascending)
    (h : r.Perm s) : r = s := by
  refine List.Perm.eq_of_pairwise (fun f g _ _ hfg hgf => ?_) (List.pairwise_map.1 hr)
    (List.pairwise_map.1 hs) h
  exact (String.lt_asymm hfg hgf).elim

theorem eq_of_mem_iff_of_ascending {r s : RecordOf α} (hr : r.Ascending) (hs : s.Ascending)
    (h : ∀ f, f ∈ r ↔ f ∈ s) : r = s :=
  eq_of_perm_of_ascending hr hs
    ((List.perm_ext_iff_of_nodup hr.nodup.of_map hs.nodup.of_map).2 h)

theorem sorted_eq_of_perm {r s : RecordOf α} (hr : r.names.Nodup) (h : r.Perm s) :
    sorted r = sorted s :=
  eq_of_perm_of_ascending (ascending_sorted hr)
    (ascending_sorted ((h.map FieldOf.name).nodup_iff.1 hr))
    ((sorted_perm r).trans (h.trans (sorted_perm s).symm))

theorem sorted_eq_self {r : RecordOf α} (hr : r.Ascending) : sorted r = r :=
  eq_of_perm_of_ascending (ascending_sorted hr.nodup) hr (sorted_perm r)

theorem find?_sorted {r : RecordOf α} (hr : r.names.Nodup) (n : String) :
    (sorted r).find? n = r.find? n := by
  ext f
  rw [find?_eq_some_iff (ascending_sorted hr).nodup, find?_eq_some_iff hr, mem_sorted]

/-! ## Renaming the descriptions -/

theorem put_map (g : α → β) (r : RecordOf α) (f : FieldOf α) :
    put (r.map (FieldOf.map g)) (f.map g) = (put r f).map (FieldOf.map g) := by
  unfold put
  have hany : ((r.map (FieldOf.map g)).any fun h => h.name == (f.map g).name) =
      r.any fun h => h.name == f.name := by
    simp [List.any_map, Function.comp_def]
  rw [hany]
  split
  · rw [List.map_map, List.map_map]
    refine List.map_congr_left fun h _ => ?_
    by_cases hn : h.name = f.name <;> simp [hn]
  · simp

theorem byName_map (g : α → β) (r : RecordOf α) :
    byName (r.map (FieldOf.map g)) = (byName r).map (FieldOf.map g) := by
  have step : ∀ (r acc : RecordOf α),
      (r.map (FieldOf.map g)).foldl put (acc.map (FieldOf.map g)) =
        (r.foldl put acc).map (FieldOf.map g) := by
    intro r
    induction r with
    | nil => intro acc; rfl
    | cons f r ih =>
      intro acc
      rw [List.map_cons, List.foldl_cons, List.foldl_cons, put_map, ih]
  exact step r []

theorem markMissing_map {g : α → β} {alone : α → α} {alone' : β → β} {left right r : RecordOf α}
    {left' right' : RecordOf β} (hl : left'.names = left.names) (hr : right'.names = right.names)
    (h : ∀ f ∈ r, g (alone f.shape) = alone' (g f.shape)) :
    markMissing alone' left' right' (r.map (FieldOf.map g)) =
      (markMissing alone left right r).map (FieldOf.map g) := by
  simp only [markMissing, List.map_map, hl, hr]
  refine List.map_congr_left fun f hf => ?_
  show (if left.names.contains f.name && !right.names.contains f.name then (f.map g).map alone'
    else f.map g) =
    FieldOf.map g (if left.names.contains f.name && !right.names.contains f.name then f.map alone
      else f)
  split
  · simp only [FieldOf.map, h f hf]
  · rfl

theorem sorted_map (g : α → β) (r : RecordOf α) :
    sorted (r.map (FieldOf.map g)) = (sorted r).map (FieldOf.map g) := by
  unfold sorted
  rw [List.map_mergeSort]
  intro f _ h _
  rfl

/-! ## Merging -/

theorem put_of_mem {r : RecordOf α} {f : FieldOf α} (h : f.name ∈ r.names) :
    put r f = r.map fun g => if g.name = f.name then f else g := by
  obtain ⟨g, hg, hn⟩ := mem_names.1 h
  have hany : (r.any fun g => g.name == f.name) = true := by
    rw [List.any_eq_true]
    exact ⟨g, hg, by simpa using hn⟩
  rw [put, if_pos hany]
  simp

theorem put_of_not_mem {r : RecordOf α} {f : FieldOf α} (h : f.name ∉ r.names) :
    put r f = r ++ [f] := by
  rw [put, if_neg]
  rw [List.any_eq_true]
  rintro ⟨g, hg, hn⟩
  exact h (mem_names.2 ⟨g, hg, by simpa using hn⟩)

theorem byName_eq_self {r : RecordOf α} (hr : r.names.Nodup) : byName r = r := by
  have step : ∀ r acc : RecordOf α, (names (acc ++ r)).Nodup → r.foldl put acc = acc ++ r := by
    intro r
    induction r with
    | nil => intro acc _; simp
    | cons f r ih =>
      intro acc h
      have hf : f.name ∉ acc.names := by
        intro hm
        simp only [names_append, names_cons] at h
        exact (List.nodup_append.1 h).2.2 _ hm _ (by simp) rfl
      rw [List.foldl_cons, put_of_not_mem hf, ih _ (by simpa using h)]
      simp
  exact step r [] hr

/-- The field that `f` becomes when it meets the fields of `right`. -/
def paired (J : α → α → α) (alone : α → α) (right : RecordOf α) (f : FieldOf α) : FieldOf α :=
  match right.find? f.name with
  | none => f.map alone
  | some g => ⟨f.name, f.key, J f.shape g.shape⟩

/-- Two records merged, by cases : the fields of the left one, combined with their partners on the
right or marked, and then those that only the right one has. -/
def combine (J : α → α → α) (alone : α → α) (left right : RecordOf α) : RecordOf α :=
  left.map (paired J alone right) ++
    (right.filter fun g => g.name ∉ left.names).map (FieldOf.map alone)

@[simp] theorem paired_name (J : α → α → α) (alone : α → α) (right : RecordOf α) (f : FieldOf α) :
    (paired J alone right f).name = f.name := by
  unfold paired
  split <;> rfl

@[simp] theorem paired_key (J : α → α → α) (alone : α → α) (right : RecordOf α) (f : FieldOf α) :
    (paired J alone right f).key = f.key := by
  unfold paired
  split <;> rfl

theorem paired_of_not_mem (J : α → α → α) (alone : α → α) {right : RecordOf α} {f : FieldOf α}
    (h : f.name ∉ right.names) : paired J alone right f = f.map alone := by
  rw [paired, find?_eq_none_iff.2 h]

theorem paired_of_mem (J : α → α → α) (alone : α → α) {right : RecordOf α}
    (hr : right.names.Nodup) {f g : FieldOf α} (hg : g ∈ right) (h : f.name = g.name) :
    paired J alone right f = ⟨f.name, f.key, J f.shape g.shape⟩ := by
  rw [paired, (find?_eq_some_iff hr).2 ⟨hg, h.symm⟩]

/-- Merging from the right, where the marks on the left side are still to be set. -/
theorem mergeRight_eq {join : α → α → Option α} {J : α → α → α} (alone : α → α)
    (left right : RecordOf α) (hl : left.names.Nodup) (hr : right.names.Nodup)
    (hJ : ∀ f ∈ left, ∀ g ∈ right, f.name = g.name →
      join f.shape g.shape = some (J f.shape g.shape)) :
    mergeRight alone join left right = some (left.map (paired J id right) ++
      (right.filter fun g => g.name ∉ left.names).map (FieldOf.map alone)) := by
  induction right generalizing left with
  | nil =>
    have hid : left.map (paired J id []) = left := by
      refine (List.map_congr_left fun f _ => ?_).trans (List.map_id left)
      rw [paired_of_not_mem _ _ (by simp), FieldOf.map_id, id_eq]
    rw [mergeRight, hid]
    simp
  | cons g right ih =>
    obtain ⟨hg, hr⟩ := List.nodup_cons.1 hr
    cases hfind : left.find? g.name with
    | none =>
      have hgl : g.name ∉ left.names := find?_eq_none_iff.1 hfind
      have hnodup : (names (left ++ [g.map alone])).Nodup := by
        simpa [List.nodup_append] using ⟨hl, fun n hn h => hgl (h ▸ hn)⟩
      rw [mergeRight, hfind]
      simp only
      rw [ih _ hnodup hr]
      · have hpair : ∀ f ∈ left, paired J id (g :: right) f = paired J id right f := by
          intro f hf
          have hne : g.name ≠ f.name := fun h => hgl (h ▸ name_mem_names hf)
          simp only [paired, find?_cons, if_neg hne]
        have hfilter : (right.filter fun h => h.name ∉ names (left ++ [g.map alone])) =
            right.filter fun h => h.name ∉ left.names := by
          refine List.filter_congr fun h hh => ?_
          have hne : h.name ≠ g.name := fun he => hg (he ▸ name_mem_names hh)
          simp [hne]
        rw [List.map_append, hfilter, List.map_congr_left hpair, List.filter_cons_of_pos (by simpa)]
        simp [paired_of_not_mem J id (f := g.map alone) hg]
      · intro f hf h hh hn
        rcases List.mem_append.1 hf with hf | hf
        · exact hJ f hf h (List.mem_cons_of_mem _ hh) hn
        · obtain rfl := List.mem_singleton.1 hf
          exact (hg (hn ▸ name_mem_names hh)).elim
    | some f₀ =>
      obtain ⟨hf₀, hn₀⟩ := (find?_eq_some_iff hl).1 hfind
      have hgl : g.name ∈ left.names := mem_names.2 ⟨f₀, hf₀, hn₀⟩
      rw [mergeRight, hfind]
      simp only [hJ f₀ hf₀ g (List.mem_cons_self ..) hn₀]
      have hput : put left ⟨g.name, f₀.key, J f₀.shape g.shape⟩ = left.map fun f =>
          if f.name = g.name then ⟨g.name, f₀.key, J f₀.shape g.shape⟩ else f :=
        put_of_mem hgl
      have hnames : names (put left ⟨g.name, f₀.key, J f₀.shape g.shape⟩) = left.names := by
        rw [hput, names, List.map_map]
        refine List.map_congr_left fun f _ => ?_
        by_cases h : f.name = g.name <;> simp [h]
      simp only [Option.bind_eq_bind, Option.bind_some]
      rw [ih _ (hnames ▸ hl) hr]
      · rw [hnames, List.filter_cons_of_neg (by simpa), hput, List.map_map]
        congr 2
        refine List.map_congr_left fun f hf => ?_
        by_cases h : f.name = g.name
        · obtain rfl : f = f₀ := eq_of_name_eq hl hf hf₀ (h.trans hn₀.symm)
          simp only [Function.comp_apply, if_pos h]
          rw [paired_of_not_mem J id (by exact hg), paired, find?_cons, if_pos h.symm, h]
          rfl
        · simp only [Function.comp_apply, if_neg h, paired, find?_cons, if_neg (Ne.symm h)]
      · intro f hf h hh hn
        rw [hput] at hf
        obtain ⟨f', hf', rfl⟩ := List.mem_map.1 hf
        by_cases he : f'.name = g.name
        · simp only [if_pos he] at hn
          exact (hg (hn ▸ name_mem_names hh)).elim
        · simp only [if_neg he] at hn ⊢
          exact hJ f' hf' h (List.mem_cons_of_mem _ hh) hn

theorem markMissing_map_paired (J : α → α → α) (alone : α → α) (left right rest : RecordOf α)
    (hrest : ∀ g ∈ rest, g.name ∉ left.names) :
    markMissing alone left right (left.map (paired J id right) ++ rest) =
      left.map (paired J alone right) ++ rest := by
  unfold markMissing
  rw [List.map_append, List.map_map]
  congr 1
  · refine List.map_congr_left fun f hf => ?_
    by_cases h : f.name ∈ right.names
    · obtain ⟨g, hg⟩ := exists_find? h
      simp [paired, hg, h]
    · simp [paired_of_not_mem _ _ h, h, name_mem_names hf]
  · refine (List.map_congr_left fun g hg => ?_).trans (List.map_id rest)
    simp [hrest g hg]

theorem merge_eq_combine {join : α → α → Option α} {J : α → α → α} (alone : α → α)
    {left right : RecordOf α} (hl : left.names.Nodup) (hr : right.names.Nodup)
    (hJ : ∀ f ∈ left, ∀ g ∈ right, f.name = g.name →
      join f.shape g.shape = some (J f.shape g.shape)) :
    merge alone join left right = some (combine J alone left right) := by
  have hrest : ∀ g ∈ (right.filter fun g => g.name ∉ left.names).map (FieldOf.map alone),
      g.name ∉ left.names := by
    intro g hg
    obtain ⟨g', hg', rfl⟩ := List.mem_map.1 hg
    simpa using (List.mem_filter.1 hg').2
  rw [merge, byName_eq_self hl, mergeRight_eq alone left right hl hr hJ]
  simp only [Option.bind_eq_bind, Option.bind_some, Option.pure_def]
  rw [markMissing_map_paired J alone left right _ hrest, combine]

theorem names_combine (J : α → α → α) (alone : α → α) (left right : RecordOf α) :
    (combine J alone left right).names =
      left.names ++ right.names.filter fun n => n ∉ left.names := by
  simp [combine, names, List.filter_map, Function.comp_def]

theorem nodup_names_combine (J : α → α → α) (alone : α → α) {left right : RecordOf α}
    (hl : left.names.Nodup) (hr : right.names.Nodup) :
    (combine J alone left right).names.Nodup := by
  rw [names_combine, List.nodup_append]
  refine ⟨hl, hr.filter _, fun m hm n hn h => ?_⟩
  have := (List.mem_filter.1 hn).2
  simp_all

/-- A field of the merged record is a field of one side with what became of it. -/
theorem mem_combine {J : α → α → α} {alone : α → α} {left right : RecordOf α}
    (hr : right.names.Nodup) {f : FieldOf α} :
    f ∈ combine J alone left right ↔
      (∃ g ∈ left, ∃ h ∈ right, g.name = h.name ∧ f = ⟨g.name, g.key, J g.shape h.shape⟩) ∨
      (∃ g ∈ left, g.name ∉ right.names ∧ f = g.map alone) ∨
      (∃ h ∈ right, h.name ∉ left.names ∧ f = h.map alone) := by
  simp only [combine, List.mem_append, List.mem_map, List.mem_filter]
  constructor
  · rintro (⟨g, hg, rfl⟩ | ⟨h, ⟨hh, hn⟩, rfl⟩)
    · by_cases hm : g.name ∈ right.names
      · obtain ⟨h, hh, hn⟩ := mem_names.1 hm
        exact Or.inl ⟨g, hg, h, hh, hn.symm, paired_of_mem J alone hr hh hn.symm⟩
      · exact Or.inr (Or.inl ⟨g, hg, hm, paired_of_not_mem J alone hm⟩)
    · exact Or.inr (Or.inr ⟨h, hh, by simpa using hn, rfl⟩)
  · rintro (⟨g, hg, h, hh, hn, rfl⟩ | ⟨g, hg, hm, rfl⟩ | ⟨h, hh, hm, rfl⟩)
    · exact Or.inl ⟨g, hg, paired_of_mem J alone hr hh hn⟩
    · exact Or.inl ⟨g, hg, paired_of_not_mem J alone hm⟩
    · exact Or.inr ⟨h, ⟨hh, by simpa using hm⟩, rfl⟩

/-! ## Merging with repeated names -/

theorem mem_put {r : RecordOf α} {f g : FieldOf α} (h : f ∈ put r g) : f = g ∨ f ∈ r := by
  by_cases hg : g.name ∈ r.names
  · rw [put_of_mem hg] at h
    obtain ⟨f', hf', rfl⟩ := List.mem_map.1 h
    split
    · exact Or.inl rfl
    · exact Or.inr hf'
  · rw [put_of_not_mem hg, List.mem_append, List.mem_singleton] at h
    exact h.symm

theorem mem_byName {r : RecordOf α} {f : FieldOf α} (h : f ∈ byName r) : f ∈ r := by
  have step : ∀ (r acc : RecordOf α), f ∈ r.foldl put acc → f ∈ acc ∨ f ∈ r := by
    intro r
    induction r with
    | nil => exact fun acc h => Or.inl h
    | cons g r ih =>
      intro acc h
      rcases ih _ h with h | h
      · rcases mem_put h with rfl | h
        · exact Or.inr (List.mem_cons_self ..)
        · exact Or.inl h
      · exact Or.inr (List.mem_cons_of_mem _ h)
  simpa using step r [] h

theorem mem_markMissing {alone : α → α} {left right r : RecordOf α} {f : FieldOf α}
    (h : f ∈ markMissing alone left right r) : ∃ g ∈ r, f = g ∨ f = g.map alone := by
  obtain ⟨g, hg, rfl⟩ := List.mem_map.1 h
  refine ⟨g, hg, ?_⟩
  split
  · exact Or.inr rfl
  · exact Or.inl rfl

/-- If what is combined always has a result with a property that marking keeps, so has the merged
record, and every description in it has the property. -/
theorem exists_merge {join : α → α → Option α} {alone : α → α} {p : α → Prop}
    (halone : ∀ x, p x → p (alone x))
    (hjoin : ∀ x y, p x → p y → ∃ z, join x y = some z ∧ p z) {left right : RecordOf α}
    (hl : ∀ f ∈ left, p f.shape) (hr : ∀ f ∈ right, p f.shape) :
    ∃ m, merge alone join left right = some m ∧ ∀ f ∈ m, p f.shape := by
  have step : ∀ (right acc : RecordOf α), (∀ f ∈ acc, p f.shape) → (∀ f ∈ right, p f.shape) →
      ∃ m, mergeRight alone join acc right = some m ∧ ∀ f ∈ m, p f.shape := by
    intro right
    induction right with
    | nil => exact fun acc ha _ => ⟨acc, rfl, ha⟩
    | cons g right ih =>
      intro acc ha hr
      have hg := hr g (List.mem_cons_self ..)
      have hr' : ∀ f ∈ right, p f.shape := fun f hf => hr f (List.mem_cons_of_mem _ hf)
      rw [mergeRight]
      cases hfind : acc.find? g.name with
      | none =>
        refine ih _ (fun f hf => ?_) hr'
        rcases List.mem_append.1 hf with hf | hf
        · exact ha f hf
        · rw [List.mem_singleton.1 hf]
          exact halone _ hg
      | some f =>
        obtain ⟨z, hz, hpz⟩ := hjoin f.shape g.shape (ha f (mem_of_find? hfind)) hg
        simp only [hz, Option.bind_eq_bind, Option.bind_some]
        refine ih _ (fun f' hf' => ?_) hr'
        rcases mem_put hf' with rfl | hf'
        · exact hpz
        · exact ha f' hf'
  obtain ⟨m, hm, hp⟩ := step right left.byName (fun f hf => hl f (mem_byName hf)) hr
  refine ⟨markMissing alone left right m, by simp [merge, hm], fun f hf => ?_⟩
  obtain ⟨g, hg, rfl | rfl⟩ := mem_markMissing hf
  · exact hp f hg
  · exact halone _ (hp g hg)

/-- What is combined to a result stays so when more can be combined. -/
theorem merge_mono {join more : α → α → Option α} {alone : α → α}
    (h : ∀ x y z, join x y = some z → more x y = some z) {left right m : RecordOf α}
    (hm : merge alone join left right = some m) : merge alone more left right = some m := by
  have step : ∀ (right acc m : RecordOf α), mergeRight alone join acc right = some m →
      mergeRight alone more acc right = some m := by
    intro right
    induction right with
    | nil => exact fun acc m hm => hm
    | cons g right ih =>
      intro acc m hm
      rw [mergeRight] at hm ⊢
      cases hfind : acc.find? g.name with
      | none =>
        rw [hfind] at hm
        exact ih _ _ hm
      | some f =>
        rw [hfind] at hm
        obtain ⟨z, hz, hm⟩ := Option.bind_eq_some_iff.1 hm
        simp only [h _ _ _ hz, Option.bind_eq_bind, Option.bind_some]
        exact ih _ _ hm
  obtain ⟨m', hm', he⟩ := Option.bind_eq_some_iff.1 hm
  simp only [merge, step _ _ _ hm', Option.bind_eq_bind, Option.bind_some]
  exact he

end RecordOf

end JsonShape
