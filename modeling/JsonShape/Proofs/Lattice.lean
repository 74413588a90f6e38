import JsonShape.Proofs.Columns
import JsonShape.Proofs.Erasure

/-!
# The lattice of unmarked shapes

Where no call marks fields as optional, unification is the join of a lattice. `Session.Plain`
collects the sessions that such calls lead to, and `Shape.Over` the shapes that can be asked about :
any unmarked shape over handles of the table. What two of them unify to is their least upper bound
in `Tree.Below` (`Session.unify_least_upper_bound`).

The order does not see keys, so it cannot say which of several keys a merged field keeps. That the
result is the same however three shapes are grouped, keys included, is proved of trees
(`Tree.unify_assoc`) : records join name by name, and the first key wins on either side. As handles
are canonical, the shapes themselves are equal (`Session.unify_assoc_of_plain`), and an array can be
inferred in two parts.
-/

namespace JsonShape

/-! ## Sessions without optional marks -/

/-- The shape has no optional mark, and its handles are those of the table. -/
structure Shape.Over (t : RecordTable) (x : Shape) : Prop where
  unmarked : x.Unmarked
  within : x.Within t.size

/-- An unmarked tree, well formed. -/
abbrev Tree.IsPlain : Tree → Prop :=
  Formed NamedByKey false true

namespace Session

/-- Sessions that inference and unification lead to where fields are never marked. A call that fails
may leave records behind. -/
inductive Plain : Session → Prop
  | start (stem : String) : Plain { table := { stem := stem } }
  | infer {s s' : Session} {o : Options} {v : Value} {r : Except Fault Shape} (h : Plain s)
    (ho : o.optionalFields = false) (hrun : (Session.infer o v).run s = (r, s')) : Plain s'
  | unify {s s' : Session} {o : Options} {a b : Shape} {r : Except Fault Shape} (h : Plain s)
    (ho : o.optionalFields = false) (ha : a.Over s.table) (hb : b.Over s.table)
    (hrun : (Session.unify o a b).run s = (r, s')) : Plain s'

end Session

theorem Tree.inferred_isPlain {o : Options} (ho : o.optionalFields = false) :
    Tree.Inferred o Tree.IsPlain :=
  inferred_formed fun hon => absurd hon (by simp [ho])

/-- Without marks it makes no difference whether one could stand outermost. -/
theorem Tree.Formed.unmarked {named : String → String → Prop} {p : Bool} {t : Tree}
    (h : Formed named false p t) (q : Bool) : Formed named false q t := by
  refine h.of_not_isOptional ?_ q
  cases t with
  | optional x => exact absurd h.of_optional.2.1 (by simp)
  | _ => rfl

/-- Every unmarked shape over a table of unmarked records has an unmarked tree. -/
theorem Shape.Over.knows {t : RecordTable} (ht : t.Sound Tree.IsPlain) {x : Shape} (h : x.Over t) :
    t.Knows Tree.IsPlain x := by
  refine ⟨h.within, ?_⟩
  induction x with
  | array e ih => exact .array ((ih ⟨h.unmarked, h.within⟩).unmarked false) true
  | record j =>
    obtain ⟨i, r, rfl, hr⟩ := RecordTable.exists_record h.within
    exact (ht.knows_record hr).holds
  | optional y => exact h.unmarked.elim
  | _ => exact .leaf (by trivial) true

theorem Shape.Over.reads {t : RecordTable} (ht : t.Sound Tree.IsPlain) {x : Shape} (h : x.Over t) :
    t.Reads Tree.IsPlain x (t.tree x) :=
  ⟨h.knows ht, rfl⟩

theorem RecordTable.Knows.over {t : RecordTable} {x : Shape} (h : t.Knows Tree.IsPlain x) :
    x.Over t :=
  ⟨Shape.unmarked_of_formed_false h.holds, h.within⟩

namespace Session

variable {s : Session} {o : Options} {a b c : Shape}

theorem Plain.sound (h : s.Plain) : s.table.Sound Tree.IsPlain := by
  induction h with
  | start stem => exact sound_start _ stem
  | infer _ ho hrun ih =>
    exact ((infer_gives (Tree.inferred_isPlain ho) _ ih).of_run hrun).1.sound
  | unify _ ho ha hb hrun ih =>
    have hgives := unify_gives (Tree.inferred_isPlain ho).toKept ih (ha.knows ih) (hb.knows ih)
    exact (hgives.of_run hrun).1.sound

/-! ## Least upper bounds -/

/-- Unification of unmarked shapes returns their least upper bound : both are below it, and it is
below whatever both are below. -/
theorem unify_least_upper_bound (h : s.Plain) (ho : o.optionalFields = false)
    (ha : a.Over s.table) (hb : b.Over s.table) :
    ∃ c s', (unify o a b).run s = (.ok c, s') ∧ s.table.Grows s'.table ∧ c.Over s'.table ∧
      (s'.table.tree a).Below (s'.table.tree c) ∧ (s'.table.tree b).Below (s'.table.tree c) ∧
      ∀ T, (s'.table.tree a).Below T → (s'.table.tree b).Below T → (s'.table.tree c).Below T := by
  have hka := ha.knows h.sound
  have hkb := hb.knows h.sound
  obtain ⟨c, s', hrun, hadv, hkc, htree⟩ :=
    unify_gives (Tree.inferred_isPlain ho).toKept h.sound hka hkb
  have hunifies := hka.holds.unifies o hkb.holds
  obtain ⟨hleft, hright⟩ := hunifies.upper hka.holds hkb.holds
  refine ⟨c, s', hrun, hadv.grows, hkc.over, ?_⟩
  rw [htree, hadv.grows.tree_eq ha.within, hadv.grows.tree_eq hb.within]
  exact ⟨hleft, hright, fun T hT hT' => hunifies.least hT hT'⟩

/-- The session after inference of the values, one after the other, without options. -/
def afterInfer (s : Session) (values : List Value) : Session :=
  values.foldl (fun s v => ((Session.infer {} v).run s).2) s

theorem Plain.afterInfer (h : s.Plain) (values : List Value) : (s.afterInfer values).Plain := by
  induction values generalizing s with
  | nil => exact h
  | cons v values ih => exact ih (h.infer rfl rfl)

/-- Three objects with a field of one name, each under a key of its own, and the first two of them
as an array. -/
def threeKeys : Session :=
  afterInfer { table := { stem := "S" } }
    [.object [(.text "a_b", .int 1)], .object [(.text "aB", .text "x")],
      .object [(.text "a-b", .null)],
      .list [.object [(.text "a_b", .int 1)], .object [(.text "aB", .text "x")]]]

theorem plain_threeKeys : threeKeys.Plain :=
  (Plain.start "S").afterInfer _

theorem over_threeKeys {i : Int} (h : 0 ≤ i ∧ i < 4) : (Shape.record i).Over threeKeys.table := by
  have hsize : threeKeys.table.size = 4 := by decide +kernel
  exact ⟨trivial, by simpa [hsize] using h⟩

/-- Two of these records have an upper bound, below every other one. -/
theorem unify_least_upper_bound_threeKeys :
    threeKeys.Plain ∧ (Shape.record 0).Over threeKeys.table ∧
      (Shape.record 1).Over threeKeys.table ∧
      ∃ c s', (unify {} (.record 0) (.record 1)).run threeKeys = (.ok c, s') ∧
        (s'.table.tree (.record 0)).Below (s'.table.tree c) ∧
        (s'.table.tree (.record 1)).Below (s'.table.tree c) := by
  have hfirst : (Shape.record 0).Over threeKeys.table := over_threeKeys (by decide)
  have hsecond : (Shape.record 1).Over threeKeys.table := over_threeKeys (by decide)
  obtain ⟨c, s', hrun, -, -, hleft, hright, -⟩ :=
    unify_least_upper_bound (o := {}) plain_threeKeys rfl hfirst hsecond
  exact ⟨plain_threeKeys, hfirst, hsecond, c, s', hrun, hleft, hright⟩

end Session

/-! ## Grouping -/

/-- Where what stands alone is kept as it is, cells join associatively if what they hold does. -/
theorem joinCells_assoc {β : Type} {both : β → β → β} {x y z : Option β}
    (h : ∀ a ∈ x, ∀ b ∈ y, ∀ c ∈ z, both (both a b) c = both a (both b c)) :
    joinCells both id (joinCells both id x y) z = joinCells both id x (joinCells both id y z) := by
  cases x <;> cases y <;> cases z <;> simp_all [joinCells]

/-- Records in order are equal if they have the same field of every name. -/
theorem RecordOf.eq_of_find?_of_ascending {α : Type} {r s : RecordOf α} (hr : r.Ascending)
    (hs : s.Ascending) (h : ∀ n, r.find? n = s.find? n) : r = s := by
  refine eq_of_mem_iff_of_ascending hr hs fun f => ?_
  have hf := h f.name
  rw [Option.ext_iff] at hf
  simpa [find?_eq_some_iff hr.nodup, find?_eq_some_iff hs.nodup] using hf f

namespace Tree

variable {o : Options} {named : String → String → Prop} {p q r : Bool} {a b c : Tree}

/-- An unmarked tree is `any`, `undefined` or of some kind. -/
theorem Formed.kind_cases (h : Formed named false p a) :
    a = .any ∨ a = .undefined ∨ ∃ k, a.kind = some k := by
  cases a with
  | optional x => exact absurd h.of_optional.2.1 (by simp)
  | _ => simp [kind]

theorem isOptional_eq_false_of_kind {k : Kind} (h : a.kind = some k) : a.isOptional = false := by
  cases a with
  | optional x => cases h
  | _ => rfl

theorem kind_of_isNumeric (h : a.isNumeric = true) : a.kind = some .scalar := by
  cases a with
  | int64 => rfl
  | float64 => rfl
  | _ => simp [isNumeric] at h

theorem eq_bool_of_kind (h : a.kind = some .truth) : a = .bool := by
  cases a with
  | bool => rfl
  | _ => cases h

theorem eq_array_of_kind (h : a.kind = some .array) : ∃ x, a = .array x := by
  cases a with
  | array x => exact ⟨x, rfl⟩
  | _ => cases h

theorem eq_record_of_kind (h : a.kind = some .record) : ∃ fs, a = .record fs := by
  cases a with
  | record fs => exact ⟨fs, rfl⟩
  | _ => cases h

/-- Trees of one kind unify to a tree of that kind. -/
theorem kind_unify (o : Options) (ha : Formed named false p a) (hb : Formed named false q b)
    {k : Kind} (hka : a.kind = some k) (hkb : b.kind = some k) : (unify o a b).kind = some k := by
  have hu := ha.unifies o hb
  generalize unify o a b = c at hu
  cases hu with
  | anyLeft => cases hka
  | anyRight => cases hkb
  | same => exact hka
  | undefinedLeft => cases hka
  | undefinedRight => cases hkb
  | inside hopt =>
    simp [isOptional_eq_false_of_kind hka, isOptional_eq_false_of_kind hkb] at hopt
  | numbers ha => exact (kind_of_isNumeric ha).symm.trans hka
  | numberText => exact hkb
  | textNumber => exact hka
  | clash ha hb hne =>
    rw [ha] at hka
    rw [hb] at hkb
    exact absurd (Option.some.inj (hka.trans hkb.symm)) hne
  | array => exact hka
  | record => exact hka

/-- Three trees of the kinds given, not all equal, unify to `any` in either grouping. -/
theorem unify_assoc_of_kind_ne (o : Options) (ha : Formed named false p a)
    (hb : Formed named false q b) (hc : Formed named false r c) {k l m : Kind}
    (hk : a.kind = some k) (hl : b.kind = some l) (hm : c.kind = some m)
    (hne : ¬ (k = l ∧ l = m)) : unify o (unify o a b) c = unify o a (unify o b c) := by
  by_cases hkl : k = l
  · subst hkl
    have hkm : k ≠ m := fun h => hne ⟨rfl, h⟩
    rw [unify_eq_any_of_kind_ne o hl hm hkm, unify_any_right,
      unify_eq_any_of_kind_ne o (kind_unify o ha hb hk hl) hm hkm]
  by_cases hlm : l = m
  · subst hlm
    rw [unify_eq_any_of_kind_ne o hk hl hkl, unify_any_left,
      unify_eq_any_of_kind_ne o hk (kind_unify o hb hc hl hm) hkl]
  · rw [unify_eq_any_of_kind_ne o hk hl hkl, unify_eq_any_of_kind_ne o hl hm hlm, unify_any_left,
      unify_any_right]

/-- How much a scalar takes in : a text takes in every number, a fraction takes in integers. -/
def breadth : Tree → Nat
  | .float64 => 1
  | .string => 2
  | _ => 0

theorem unify_scalar (o : Options) (ha : a.kind = some .scalar) (hb : b.kind = some .scalar) :
    unify o a b = if a.breadth ≤ b.breadth then b else a := by
  refine unify_settled ?_
  cases a <;> cases b <;> simp_all [kind, breadth, rule, isOptional, isNumeric]

theorem kind_unify_scalar (o : Options) (ha : a.kind = some .scalar) (hb : b.kind = some .scalar) :
    (unify o a b).kind = some .scalar := by
  rw [unify_scalar o ha hb]
  split_ifs
  · exact hb
  · exact ha

theorem unify_assoc_of_scalar (o : Options) (ha : a.kind = some .scalar)
    (hb : b.kind = some .scalar) (hc : c.kind = some .scalar) :
    unify o (unify o a b) c = unify o a (unify o b c) := by
  rw [unify_scalar o (kind_unify_scalar o ha hb) hc,
    unify_scalar o ha (kind_unify_scalar o hb hc), unify_scalar o ha hb, unify_scalar o hb hc]
  split_ifs
  all_goals first | rfl | omega

/-- Records unify name by name : the field of a name keeps its first key, and it is marked if only
one of the two records has it. -/
theorem exists_unify_record (o : Options) {fs gs : RecordOf Tree} (hf : fs.Ascending)
    (hg : gs.Ascending) :
    ∃ hs : RecordOf Tree, unify o (.record fs) (.record gs) = .record hs ∧ hs.Ascending ∧
      ∀ n, hs.find? n =
        joinCells (Row.joinField o) (FieldOf.map (alone o)) (fs.find? n) (gs.find? n) := by
  have hnodup := RecordOf.nodup_names_combine (unify o) (alone o) hf.nodup hg.nodup
  refine ⟨_, unify_record o hf hg, RecordOf.ascending_sorted hnodup, fun n => ?_⟩
  rw [RecordOf.find?_sorted hnodup, RecordOf.find?_combine]
  rfl

/-- Records unify name by name, and the field of a name keeps its first key. -/
theorem find?_unify_record (ho : o.optionalFields = false) {fs gs : RecordOf Tree}
    (hf : fs.Ascending) (hg : gs.Ascending) :
    ∃ hs : RecordOf Tree, unify o (.record fs) (.record gs) = .record hs ∧ hs.Ascending ∧
      ∀ n, hs.find? n = joinCells (Row.joinField o) id (fs.find? n) (gs.find? n) := by
  have halone : FieldOf.map (alone o) = id := by
    funext f
    simp [FieldOf.map, alone_of_off ho]
  rw [← halone]
  exact exists_unify_record o hf hg

/-- Records unify associatively if their fields do. -/
theorem unify_assoc_of_record (ho : o.optionalFields = false) {fs gs hs : RecordOf Tree}
    (hf : fs.Ascending) (hg : gs.Ascending) (hh : hs.Ascending)
    (h : ∀ f ∈ fs, ∀ g ∈ gs, ∀ k ∈ hs, unify o (unify o f.shape g.shape) k.shape =
      unify o f.shape (unify o g.shape k.shape)) :
    unify o (unify o (.record fs) (.record gs)) (.record hs) =
      unify o (.record fs) (unify o (.record gs) (.record hs)) := by
  obtain ⟨fg, hfg, hfgasc, hfgfind⟩ := find?_unify_record ho hf hg
  obtain ⟨gh, hgh, hghasc, hghfind⟩ := find?_unify_record ho hg hh
  obtain ⟨left, hleft, hlasc, hlfind⟩ := find?_unify_record ho hfgasc hh
  obtain ⟨right, hright, hrasc, hrfind⟩ := find?_unify_record ho hf hghasc
  rw [hfg, hgh, hleft, hright]
  congr 1
  refine RecordOf.eq_of_find?_of_ascending hlasc hrasc fun n => ?_
  rw [hlfind, hfgfind, hrfind, hghfind]
  refine joinCells_assoc fun f hf g hg k hk => ?_
  have hshape := h f (RecordOf.mem_of_find? hf) g (RecordOf.mem_of_find? hg) k
    (RecordOf.mem_of_find? hk)
  simp only [Row.joinField, hshape]

/-- Unification of unmarked trees is associative, the keys of records included. -/
theorem unify_assoc (ho : o.optionalFields = false) (ha : Formed named false p a)
    (hb : Formed named false q b) (hc : Formed named false r c) :
    unify o (unify o a b) c = unify o a (unify o b c) := by
  induction hn : sizeOf a using Nat.strong_induction_on generalizing a b c p q r with
  | _ n ih =>
  subst hn
  obtain rfl | rfl | ⟨k, hk⟩ := ha.kind_cases
  · simp
  · simp
  obtain rfl | rfl | ⟨l, hl⟩ := hb.kind_cases
  · simp
  · simp
  obtain rfl | rfl | ⟨m, hm⟩ := hc.kind_cases
  · simp
  · simp
  by_cases hkinds : k = l ∧ l = m
  · obtain ⟨rfl, rfl⟩ := hkinds
    cases k with
    | truth =>
      rw [eq_bool_of_kind hk, eq_bool_of_kind hl, eq_bool_of_kind hm, unify_self]
    | scalar => exact unify_assoc_of_scalar o hk hl hm
    | array =>
      obtain ⟨x, rfl⟩ := eq_array_of_kind hk
      obtain ⟨y, rfl⟩ := eq_array_of_kind hl
      obtain ⟨z, rfl⟩ := eq_array_of_kind hm
      have hlt : sizeOf x < sizeOf (Tree.array x) := by
        simp only [array.sizeOf_spec]
        omega
      simp only [unify_array, ih _ hlt ha.of_array hb.of_array hc.of_array rfl]
    | record =>
      obtain ⟨fs, rfl⟩ := eq_record_of_kind hk
      obtain ⟨gs, rfl⟩ := eq_record_of_kind hl
      obtain ⟨hs, rfl⟩ := eq_record_of_kind hm
      refine unify_assoc_of_record ho ha.ascending hb.ascending hc.ascending ?_
      intro f hf g hg h hh
      exact ih _ (sizeOf_shape_lt hf) (ha.fields f hf).2 (hb.fields g hg).2 (hc.fields h hh).2 rfl
  · exact unify_assoc_of_kind_ne o ha hb hc hk hl hm hkinds

/-! ## Items in two parts -/

/-- What items are taken into is part of the result. -/
theorem exists_unify_of_inferItems (ho : o.optionalFields = false) {found T : Tree}
    (hfound : IsPlain found) {items : List Value} (h : inferItems o found items = .ok T) :
    ∃ w, IsPlain w ∧ T = unify o found w := by
  induction items generalizing found with
  | nil =>
    rw [inferItems] at h
    exact ⟨.undefined, .leaf (by trivial) _, by simp [(Except.ok.inj h)]⟩
  | cons v items ih =>
    obtain ⟨t, ht, hstep⟩ := inferItems_cons_eq_ok.1 h
    have hplain : IsPlain t := (inferred_isPlain ho).infer ht
    obtain ⟨hany, rfl⟩ | ⟨-, hrest⟩ := hstep
    · exact ⟨t, hplain, hany.symm⟩
    · obtain ⟨w, hw, rfl⟩ := ih ((inferred_isPlain ho).unify hfound hplain) hrest
      exact ⟨unify o t w, (inferred_isPlain ho).unify hplain hw, unify_assoc ho hfound hplain hw⟩

/-- Items can be taken into `found` on their own first. -/
theorem inferItems_unify (ho : o.optionalFields = false) {before found T U : Tree}
    (hbefore : IsPlain before) (hfound : IsPlain found) {items : List Value}
    (hT : inferItems o found items = .ok T)
    (hU : inferItems o (unify o before found) items = .ok U) : U = unify o before T := by
  induction items generalizing found with
  | nil =>
    rw [inferItems] at hT hU
    rw [← Except.ok.inj hT, ← Except.ok.inj hU]
  | cons v items ih =>
    obtain ⟨t, ht, hstep⟩ := inferItems_cons_eq_ok.1 hT
    obtain ⟨t', ht', hstep'⟩ := inferItems_cons_eq_ok.1 hU
    obtain rfl := Except.ok.inj (ht.symm.trans ht')
    have hplain : IsPlain t := (inferred_isPlain ho).infer ht
    have hnext := (inferred_isPlain ho).unify hfound hplain
    rw [unify_assoc ho hbefore hfound hplain] at hstep'
    obtain ⟨hany, rfl⟩ | ⟨-, hrest⟩ := hstep
    · rw [hany, unify_any_right] at hstep'
      simpa using hstep'
    obtain ⟨hany, rfl⟩ | ⟨-, hrest'⟩ := hstep'
    · -- the whole has stopped at `any` where the part goes on, which can only add to it
      obtain ⟨w, hw, rfl⟩ := exists_unify_of_inferItems ho hnext hrest
      rw [← unify_assoc ho hbefore hnext hw, hany, unify_any_left]
    · exact ih hnext hrest hrest'

/-- Items are taken in from the first on, unless `any` is found before the last ones. -/
theorem inferItems_append {found T U : Tree} (hfound : found ≠ .any) {xs ys : List Value}
    (hT : inferItems o found xs = .ok T) (hU : inferItems o found (xs ++ ys) = .ok U) :
    (T = .any ∧ U = .any) ∨ (T ≠ .any ∧ inferItems o T ys = .ok U) := by
  induction xs generalizing found with
  | nil =>
    rw [inferItems] at hT
    obtain rfl := Except.ok.inj hT
    exact Or.inr ⟨hfound, hU⟩
  | cons v xs ih =>
    obtain ⟨t, ht, hstep⟩ := inferItems_cons_eq_ok.1 hT
    obtain ⟨t', ht', hstep'⟩ := inferItems_cons_eq_ok.1 hU
    obtain rfl := Except.ok.inj (ht.symm.trans ht')
    obtain ⟨hany, rfl⟩ | ⟨hany, hrest⟩ := hstep
    · obtain ⟨-, rfl⟩ | ⟨hne, -⟩ := hstep'
      · exact Or.inl ⟨rfl, rfl⟩
      · exact absurd hany hne
    · obtain ⟨hany', -⟩ | ⟨-, hrest'⟩ := hstep'
      · exact absurd hany' hany
      · exact ih hany hrest hrest'

/-- The elements of two arrays unify to those of the arrays joined. -/
theorem unify_eq_of_append (ho : o.optionalFields = false) {xs ys : List Value} {X Y Z : Tree}
    (hX : inferItems o .undefined xs = .ok X) (hY : inferItems o .undefined ys = .ok Y)
    (hZ : inferItems o .undefined (xs ++ ys) = .ok Z) : unify o X Y = Z := by
  obtain ⟨rfl, rfl⟩ | ⟨-, hrest⟩ := inferItems_append (by simp) hX hZ
  · exact unify_any_left o Y
  have hundef : IsPlain .undefined := .leaf (by trivial) _
  obtain ⟨w, hw, hXw⟩ := exists_unify_of_inferItems ho hundef hX
  rw [unify_undefined_left] at hXw
  subst hXw
  refine (inferItems_unify ho hw hundef hY ?_).symm
  rwa [unify_undefined_right]

end Tree

namespace Session

variable {s s' : Session} {o : Options} {a b c : Shape}

/-! ## Grouping on a session -/

/-- Unifies the first two of three shapes first. -/
def unifyFirstTwo (o : Options) (a b c : Shape) : Action Shape := do
  unify o (← unify o a b) c

/-- Unifies the last two of three shapes first. -/
def unifyLastTwo (o : Options) (a b c : Shape) : Action Shape := do
  unify o a (← unify o b c)

section Gives

variable {P : Tree → Prop}

variable {A B C : Tree}

theorem unifyFirstTwo_gives (hP : Tree.Kept o P) (hs : s.table.Sound P)
    (ha : s.table.Reads P a A) (hb : s.table.Reads P b B) (hc : s.table.Reads P c C) :
    Gives P (RecordTable.Reads P) (unifyFirstTwo o a b c) s (.ok ((A.unify o B).unify o C)) := by
  refine (unify_gives_of_reads hP hs ha hb).bind fun x s' hadv hx => ?_
  exact unify_gives_of_reads hP hadv.sound hx (hc.grow hadv.grows)

theorem unifyLastTwo_gives (hP : Tree.Kept o P) (hs : s.table.Sound P)
    (ha : s.table.Reads P a A) (hb : s.table.Reads P b B) (hc : s.table.Reads P c C) :
    Gives P (RecordTable.Reads P) (unifyLastTwo o a b c) s (.ok (A.unify o (B.unify o C))) := by
  refine (unify_gives_of_reads hP hs hb hc).bind fun x s' hadv hx => ?_
  exact unify_gives_of_reads hP hadv.sound (ha.grow hadv.grows) hx

/-- Two calls that give one tree return one shape, the second on what the first has left. -/
theorem Gives.run_twice {x y : Action Shape} {T : Tree}
    (hx : Gives P (RecordTable.Reads P) x s (.ok T))
    (hy : ∀ s', s.Advances P s' → Gives P (RecordTable.Reads P) y s' (.ok T)) :
    ∃ z s₁ s₂, x.run s = (.ok z, s₁) ∧ y.run s₁ = (.ok z, s₂) := by
  obtain ⟨z, s₁, hrun, hadv, hz⟩ := hx
  obtain ⟨z', s₂, hrun', hadv', hz'⟩ := hy s₁ hadv
  have hz := hz.grow hadv'.grows
  obtain rfl := (hadv'.sound.tree_inj hz.1.within hz'.1.within).1 (hz.2.trans hz'.2.symm)
  exact ⟨z, s₁, s₂, hrun, hrun'⟩

end Gives

/-- The call returned the shape on a plain session, and the table has only grown since. -/
def Recalls (s : Session) (call : Action Shape) (x : Shape) : Prop :=
  ∃ s₀ s₁ : Session, s₀.Plain ∧ call.run s₀ = (.ok x, s₁) ∧ s₁.table.Grows s.table

/-- For an array an array shape was returned, and its elements read as those of the tree. -/
theorem Recalls.elements (ho : o.optionalFields = false) {v : Value} {items : List Value}
    (hv : v.items? = some items) {x : Shape} (h : s.Recalls (infer o v) x) :
    ∃ e E, x = .array e ∧ Tree.inferItems o .undefined items = .ok E ∧
      s.table.Reads Tree.IsPlain e E := by
  obtain ⟨s₀, s₁, hplain, hrun, hgrows⟩ := h
  have hP := Tree.inferred_isPlain ho
  obtain ⟨T, hT, hadv, hknows, htree⟩ := (infer_gives hP v hplain.sound).of_run_ok hrun
  obtain ⟨E, hE, rfl⟩ := (Tree.infer_items_eq_ok hv).1 hT
  obtain ⟨e, rfl, rfl⟩ := RecordTable.eq_array_of_tree hadv.sound.grounded hknows.within htree
  refine ⟨e, _, rfl, hE, RecordTable.Reads.grow ⟨?_, rfl⟩ hgrows⟩
  exact ⟨hknows.within, hP.array hknows.holds⟩

/-- Unmarked shapes unify to one shape in either grouping, whichever grouping comes first. So the
elements of an array inferred whole are those of its two parts, unified. -/
theorem unify_assoc_of_plain (h : s.Plain) (ho : o.optionalFields = false) :
    (∀ a b c : Shape, a.Over s.table → b.Over s.table → c.Over s.table →
      (∃ x s₁ s₂, (unifyFirstTwo o a b c).run s = (.ok x, s₁) ∧
        (unifyLastTwo o a b c).run s₁ = (.ok x, s₂)) ∧
      ∃ x s₁ s₂, (unifyLastTwo o a b c).run s = (.ok x, s₁) ∧
        (unifyFirstTwo o a b c).run s₁ = (.ok x, s₂)) ∧
    ∀ (u v w : Value) (xs ys : List Value) (a b c : Shape), u.items? = some xs →
      v.items? = some ys → w.items? = some (xs ++ ys) → s.Recalls (infer o u) a →
      s.Recalls (infer o v) b → s.Recalls (infer o w) c →
      ∃ x y z s', a = .array x ∧ b = .array y ∧ c = .array z ∧
        (unify o x y).run s = (.ok z, s') := by
  have hP := (Tree.inferred_isPlain ho).toKept
  constructor
  · intro a b c ha hb hc
    have ha := ha.reads h.sound
    have hb := hb.reads h.sound
    have hc := hc.reads h.sound
    have hassoc := Tree.unify_assoc ho ha.1.holds hb.1.holds hc.1.holds
    constructor
    · refine (unifyFirstTwo_gives hP h.sound ha hb hc).run_twice fun s' hadv => ?_
      rw [hassoc]
      exact unifyLastTwo_gives hP hadv.sound (ha.grow hadv.grows) (hb.grow hadv.grows)
        (hc.grow hadv.grows)
    · refine (unifyLastTwo_gives hP h.sound ha hb hc).run_twice fun s' hadv => ?_
      rw [← hassoc]
      exact unifyFirstTwo_gives hP hadv.sound (ha.grow hadv.grows) (hb.grow hadv.grows)
        (hc.grow hadv.grows)
  · intro u v w xs ys a b c hu hv hw ha hb hc
    obtain ⟨x, X, rfl, hX, hx⟩ := ha.elements ho hu
    obtain ⟨y, Y, rfl, hY, hy⟩ := hb.elements ho hv
    obtain ⟨z, Z, rfl, hZ, hz⟩ := hc.elements ho hw
    obtain ⟨z', s', hrun, hadv, hz'⟩ := unify_gives_of_reads hP h.sound hx hy
    rw [Tree.unify_eq_of_append ho hX hY hZ] at hz'
    have hz := hz.grow hadv.grows
    obtain rfl := (hadv.sound.tree_inj hz.1.within hz'.1.within).1 (hz.2.trans hz'.2.symm)
    exact ⟨x, y, z, s', rfl, rfl, rfl, hrun⟩

/-- What is asked again about known records is recalled. -/
theorem recalls_of_known (h : s.Plain) {v : Value} {x : Shape}
    (hknown : ((infer o v).run s).1.toOption = some x ∧ ((infer o v).run s).2.table = s.table) :
    s.Recalls (infer o v) x :=
  ⟨s, _, h, run_of_toOption hknown.1, hknown.2 ▸ RecordTable.Grows.refl _⟩

theorem unify_assoc_of_plain_threeKeys :
    threeKeys.Plain ∧
      (∃ x s₁ s₂, (unifyFirstTwo {} (.record 0) (.record 1) (.record 2)).run threeKeys =
          (.ok x, s₁) ∧
        (unifyLastTwo {} (.record 0) (.record 1) (.record 2)).run s₁ = (.ok x, s₂)) ∧
      ∃ s', (unify {} (.record 0) (.record 1)).run threeKeys = (.ok (.record 3), s') := by
  obtain ⟨hgroup, harray⟩ := unify_assoc_of_plain (o := {}) plain_threeKeys rfl
  refine ⟨plain_threeKeys, ?_, ?_⟩
  · exact (hgroup _ _ _ (over_threeKeys (by decide)) (over_threeKeys (by decide))
      (over_threeKeys (by decide))).1
  · obtain ⟨x, y, z, s', hx, hy, hz, hrun⟩ := harray (.list [.object [(.text "a_b", .int 1)]])
      (.tuple [.object [(.text "aB", .text "x")]])
      (.list [.object [(.text "a_b", .int 1)], .object [(.text "aB", .text "x")]]) _ _
      (.array (.record 0)) (.array (.record 1)) (.array (.record 3)) rfl rfl rfl
      (recalls_of_known plain_threeKeys (by decide +kernel))
      (recalls_of_known plain_threeKeys (by decide +kernel))
      (recalls_of_known plain_threeKeys (by decide +kernel))
    cases hx
    cases hy
    cases hz
    exact ⟨s', hrun⟩

end Session

end JsonShape
