import JsonShape.Proofs.Formed

/-!
# The order of trees

`Tree.Below` orders trees by how much they take in : `undefined` is below all of them, `any` above,
`int64` below `float64` below `string`, arrays go with their elements, and a record is below another
one that has all its fields, each with a tree that is not smaller. Keys play no part, and neither do
optional marks.

Unification gives a least upper bound in this order : both trees are below the result
(`Unifies.upper`), and the result is below every tree that both are below (`Unifies.least`). Trees
without optional marks that are below each other differ in their keys at most (`Below.antisymm`).
-/

namespace JsonShape

namespace Tree

/-- One tree describes no more than the other. -/
inductive Below : Tree → Tree → Prop
  | undefined (b : Tree) : Below .undefined b
  | any (a : Tree) : Below a .any
  | leaf {t : Tree} (h : t.IsLeaf) : Below t t
  | int64_float64 : Below .int64 .float64
  | int64_string : Below .int64 .string
  | float64_string : Below .float64 .string
  | array {x y : Tree} (h : Below x y) : Below (.array x) (.array y)
  | record {fs gs : List (FieldOf Tree)} (hn : ∀ f ∈ fs, f.name ∈ RecordOf.names gs)
    (h : ∀ f ∈ fs, ∀ g, RecordOf.find? gs f.name = some g → Below f.shape g.shape) :
    Below (.record fs) (.record gs)
  | optionalLeft {a b : Tree} (h : Below a b) : Below (.optional a) b
  | optionalRight {a b : Tree} (h : Below a b) : Below a (.optional b)

/-! ## Optional marks -/

/-- The tree under all optional marks. -/
def core : Tree → Tree
  | .optional inner => inner.core
  | t => t

theorem core_not_isOptional (t : Tree) : t.core.isOptional = false := by
  induction t with
  | optional x ih => exact ih
  | _ => rfl

theorem below_of_core {a b : Tree} (h : Below a b.core) : Below a b := by
  induction b with
  | optional y ih => exact .optionalRight (ih h)
  | _ => exact h

theorem below_any_of_core {a b : Tree} (h : b.core = .any) : Below a b :=
  below_of_core (h ▸ .any a)

theorem Below.of_dropOptional {a b : Tree} (h : Below a.dropOptional b) : Below a b := by
  cases a with
  | optional x => exact .optionalLeft h
  | _ => exact h

theorem Below.dropOptional {a b : Tree} (h : Below a b) : Below a.dropOptional b := by
  induction h with
  | optionalLeft h => exact h
  | optionalRight _ ih => exact .optionalRight ih
  | any => exact .any _
  | leaf h =>
    rename_i t
    cases t <;> first | exact .leaf h | exact h.elim
  | _ => constructor <;> assumption

theorem Below.markOptional {a b : Tree} (h : Below a b) : Below a b.markOptional := by
  cases b with
  | any => exact h
  | undefined => exact h
  | optional y => exact h
  | _ => exact .optionalRight h

theorem Below.markOptional_left {a b : Tree} (h : Below a b) : Below a.markOptional b := by
  cases a with
  | any => exact h
  | undefined => exact h
  | optional y => exact h
  | _ => exact .optionalLeft h

theorem Below.alone {a b : Tree} (o : Options) (h : Below a b) : Below a (b.alone o) := by
  unfold Tree.alone
  split
  · exact h.markOptional
  · exact h

theorem Below.alone_left {a b : Tree} (o : Options) (h : Below a b) : Below (a.alone o) b := by
  unfold Tree.alone
  split
  · exact h.markOptional_left
  · exact h

/-! ## What is above a tree -/

theorem Below.of_array {x b : Tree} (h : Below (.array x) b) :
    b.core = .any ∨ ∃ y, b.core = .array y ∧ Below x y := by
  generalize ha : Tree.array x = a at h
  induction h with
  | any => exact Or.inl rfl
  | leaf h => exact (ha ▸ h : (Tree.array x).IsLeaf).elim
  | array h =>
    cases ha
    exact Or.inr ⟨_, rfl, h⟩
  | optionalRight _ ih => exact ih ha
  | _ => cases ha

theorem Below.of_record {fs : List (FieldOf Tree)} {b : Tree} (h : Below (.record fs) b) :
    b.core = .any ∨ ∃ gs, b.core = .record gs ∧ ∀ f ∈ fs, f.name ∈ RecordOf.names gs ∧
      ∀ g, RecordOf.find? gs f.name = some g → Below f.shape g.shape := by
  generalize ha : Tree.record fs = a at h
  induction h with
  | any => exact Or.inl rfl
  | leaf h => exact (ha ▸ h : (Tree.record fs).IsLeaf).elim
  | record hn h =>
    cases ha
    exact Or.inr ⟨_, rfl, fun f hf => ⟨hn f hf, h f hf⟩⟩
  | optionalRight _ ih => exact ih ha
  | _ => cases ha

/-- What is above a tree of one kind is of that kind, or `any`. -/
theorem Below.kind {a b : Tree} {k : Kind} (h : Below a b) (hk : a.kind = some k) :
    b.core = .any ∨ b.core.kind = some k := by
  induction h with
  | undefined => cases hk
  | any => exact Or.inl rfl
  | leaf h =>
    rename_i t
    cases t <;> first | exact Or.inr hk | exact h.elim
  | optionalLeft => cases hk
  | optionalRight _ ih => exact ih hk
  | _ => exact Or.inr hk

/-! ## Least upper bounds -/

theorem below_refl {named : String → String → Prop} {marks outer : Bool} {t : Tree}
    (h : Formed named marks outer t) : Below t t := by
  induction h with
  | leaf h => exact .leaf h
  | array _ _ ih => exact .array ih
  | record _ hasc _ _ _ ih =>
    refine .record (fun f hf => RecordOf.name_mem_names hf) fun f hf g hg => ?_
    obtain ⟨hmem, hname⟩ := (RecordOf.find?_eq_some_iff hasc.nodup).1 hg
    obtain rfl := RecordOf.eq_of_name_eq hasc.nodup hf hmem hname.symm
    exact ih _ hf
  | optional _ _ _ _ ih => exact .optionalLeft (.optionalRight ih)

variable {o : Options} {a b c : Tree}

theorem below_float64_of_isNumeric {t : Tree} (h : t.isNumeric) : Below t .float64 := by
  cases t <;> first | exact .int64_float64 | exact .leaf trivial | cases h

theorem below_string_of_isNumeric {t : Tree} (h : t.isNumeric) : Below t .string := by
  cases t <;> first | exact .int64_string | exact .float64_string | cases h

theorem eq_float64_of_isNumeric (ha : a.isNumeric) (hb : b.isNumeric) (hne : a ≠ b) :
    a = .float64 ∨ b = .float64 := by
  cases a <;> cases b <;> simp_all [isNumeric]

/-- A record is below a merged one if each of its fields is below what became of it. -/
theorem below_sorted {fs m : List (FieldOf Tree)} (hm : (RecordOf.names m).Nodup)
    (h : ∀ f ∈ fs, ∃ g ∈ m, g.name = f.name ∧ Below f.shape g.shape) :
    Below (.record fs) (.record (RecordOf.sorted m)) := by
  refine .record (fun f hf => ?_) fun f hf g hg => ?_
  · obtain ⟨g, hg, hname, -⟩ := h f hf
    exact hname ▸ RecordOf.name_mem_names (RecordOf.mem_sorted.2 hg)
  · obtain ⟨g', hg', hname, hbelow⟩ := h f hf
    rw [RecordOf.find?_sorted hm, RecordOf.find?_eq_some_iff hm] at hg
    obtain rfl := RecordOf.eq_of_name_eq hm hg.1 hg' (hg.2.trans hname.symm)
    exact hbelow

/-- Both trees are below what they unify to. -/
theorem Unifies.upper {named : String → String → Prop} {marks p q : Bool} (hu : Unifies o a b c)
    (ha : Formed named marks p a) (hb : Formed named marks q b) : Below a c ∧ Below b c := by
  induction hu generalizing p q with
  | anyLeft => exact ⟨below_refl ha, .any _⟩
  | anyRight => exact ⟨.any _, below_refl hb⟩
  | same => exact ⟨below_refl ha, below_refl hb⟩
  | undefinedLeft => exact ⟨.undefined _, below_refl hb⟩
  | undefinedRight => exact ⟨below_refl ha, .undefined _⟩
  | inside _ _ ih =>
    obtain ⟨hl, hr⟩ := ih ha.dropOptional hb.dropOptional
    exact ⟨hl.markOptional.of_dropOptional, hr.markOptional.of_dropOptional⟩
  | numbers hna hnb => exact ⟨below_float64_of_isNumeric hna, below_float64_of_isNumeric hnb⟩
  | numberText hna => exact ⟨below_string_of_isNumeric hna, .leaf trivial⟩
  | textNumber hnb => exact ⟨.leaf trivial, below_string_of_isNumeric hnb⟩
  | clash => exact ⟨.any _, .any _⟩
  | array _ ih =>
    obtain ⟨hl, hr⟩ := ih ha.of_array hb.of_array
    exact ⟨.array hl, .array hr⟩
  | @record fs gs hf hg _ ih =>
    have hnodup := RecordOf.nodup_names_combine (unify o) (Tree.alone o) hf.nodup hg.nodup
    refine ⟨below_sorted hnodup fun f hmem => ?_, below_sorted hnodup fun g hmem => ?_⟩
    · have hform := (ha.fields f hmem).2
      by_cases hm : f.name ∈ RecordOf.names gs
      · obtain ⟨g, hmem', hname⟩ := RecordOf.mem_names.1 hm
        exact ⟨_, (RecordOf.mem_combine hg.nodup).2 (Or.inl ⟨f, hmem, g, hmem', hname.symm, rfl⟩),
          rfl, (ih f hmem g hmem' hform (hb.fields g hmem').2).1⟩
      · exact ⟨_, (RecordOf.mem_combine hg.nodup).2 (Or.inr (Or.inl ⟨f, hmem, hm, rfl⟩)), rfl,
          (below_refl hform).alone o⟩
    · have hform := (hb.fields g hmem).2
      by_cases hm : g.name ∈ RecordOf.names fs
      · obtain ⟨f, hmem', hname⟩ := RecordOf.mem_names.1 hm
        exact ⟨_, (RecordOf.mem_combine hg.nodup).2 (Or.inl ⟨f, hmem', g, hmem, hname, rfl⟩),
          hname, (ih f hmem' g hmem (ha.fields f hmem').2 hform).2⟩
      · exact ⟨_, (RecordOf.mem_combine hg.nodup).2 (Or.inr (Or.inr ⟨g, hmem, hm, rfl⟩)), rfl,
          (below_refl hform).alone o⟩

/-- What two trees unify to is below every tree that both are below. -/
theorem Unifies.least (hu : Unifies o a b c) {d : Tree} (ha : Below a d) (hb : Below b d) :
    Below c d := by
  induction hu generalizing d with
  | anyLeft => exact ha
  | anyRight => exact hb
  | same => exact ha
  | undefinedLeft => exact hb
  | undefinedRight => exact ha
  | inside _ _ ih => exact (ih ha.dropOptional hb.dropOptional).markOptional_left
  | numbers hna hnb hne =>
    rcases eq_float64_of_isNumeric hna hnb hne with rfl | rfl
    · exact ha
    · exact hb
  | numberText => exact hb
  | textNumber => exact ha
  | clash hka hkb hne =>
    rcases ha.kind hka with h | h
    · exact below_any_of_core h
    rcases hb.kind hkb with h' | h'
    · exact below_any_of_core h'
    exact absurd (Option.some.inj (h.symm.trans h')) hne
  | array _ ih =>
    rcases ha.of_array with h | ⟨x, hx, hax⟩
    · exact below_any_of_core h
    rcases hb.of_array with h | ⟨y, hy, hby⟩
    · exact below_any_of_core h
    obtain rfl : x = y := Tree.array.inj (hx.symm.trans hy)
    exact below_of_core (hx ▸ .array (ih hax hby))
  | record hf hg _ ih =>
    rcases ha.of_record with h | ⟨ds, hds, hfs⟩
    · exact below_any_of_core h
    rcases hb.of_record with h | ⟨ds', hds', hgs⟩
    · exact below_any_of_core h
    obtain rfl : ds = ds' := Tree.record.inj (hds.symm.trans hds')
    refine below_of_core (hds ▸ .record (fun f hmem => ?_) fun f hmem d hd => ?_)
    · rcases (RecordOf.mem_combine hg.nodup).1 (RecordOf.mem_sorted.1 hmem) with
        ⟨g, hg', -, -, -, rfl⟩ | ⟨g, hg', -, rfl⟩ | ⟨h, hh, -, rfl⟩
      · exact (hfs g hg').1
      · exact (hfs g hg').1
      · exact (hgs h hh).1
    · rcases (RecordOf.mem_combine hg.nodup).1 (RecordOf.mem_sorted.1 hmem) with
        ⟨g, hg', h, hh, hname, rfl⟩ | ⟨g, hg', -, rfl⟩ | ⟨h, hh, -, rfl⟩
      · exact ih g hg' h hh ((hfs g hg').2 d hd) ((hgs h hh).2 d (hname ▸ hd))
      · exact ((hfs g hg').2 d hd).alone_left o
      · exact ((hgs h hh).2 d hd).alone_left o

/-! ## Trees below each other -/

/-- Unmarked trees below each other are the same, where a name determines its key. -/
theorem Below.antisymm {named : String → String → Prop} {p q : Bool}
    (hnamed : ∀ n k l, named n k → named n l → k = l) (hab : Below a b) (hba : Below b a)
    (ha : Formed named false p a) (hb : Formed named false q b) : a = b := by
  have unmarked : ∀ {r : Bool} {x : Tree}, ¬ Formed named false r (.optional x) :=
    fun h => absurd h.of_optional.2.1 (by simp)
  induction hab generalizing p q with
  | undefined =>
    cases hba with
    | undefined => rfl
    | leaf => rfl
    | optionalLeft => exact absurd hb unmarked
  | any =>
    cases hba with
    | any => rfl
    | leaf => rfl
    | optionalRight => exact absurd ha unmarked
  | leaf => rfl
  | int64_float64 => cases hba
  | int64_string => cases hba
  | float64_string => cases hba
  | array _ ih =>
    cases hba with
    | leaf => rfl
    | array h => rw [ih h ha.of_array hb.of_array]
  | @record fs gs hn _ ih =>
    cases hba with
    | leaf => rfl
    | record hn' h' =>
      -- Fields of one name are the same on both sides, and every name is on both sides.
      have hfield : ∀ f ∈ fs, ∀ g ∈ gs, f.name = g.name → f = g := by
        intro f hf g hg hname
        have hg' := (RecordOf.find?_eq_some_iff hb.ascending.nodup).2 ⟨hg, hname.symm⟩
        have hf' := (RecordOf.find?_eq_some_iff ha.ascending.nodup).2 ⟨hf, hname⟩
        have hshape := ih f hf g hg' (h' g hg f hf') (ha.fields f hf).2 (hb.fields g hg).2
        have hkey := hnamed _ _ _ (hname ▸ (ha.fields f hf).1) (hb.fields g hg).1
        cases f
        cases g
        simp_all
      congr 1
      refine RecordOf.eq_of_mem_iff_of_ascending ha.ascending hb.ascending fun f => ⟨?_, ?_⟩
      · intro hf
        obtain ⟨g, hg, hname⟩ := RecordOf.mem_names.1 (hn f hf)
        exact hfield f hf g hg hname.symm ▸ hg
      · intro hg
        obtain ⟨f', hf', hname⟩ := RecordOf.mem_names.1 (hn' f hg)
        exact hfield f' hf' f hg hname ▸ hf'
  | optionalLeft => exact absurd ha unmarked
  | optionalRight => exact absurd hb unmarked

end Tree

end JsonShape
