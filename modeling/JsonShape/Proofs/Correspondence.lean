import JsonShape.Proofs.Lattice
import JsonShape.Proofs.Marks

/-!
# Trees that correspond

Two trees correspond if they have the same arrays, records and optional marks
(`Tree.Corresponds`). How far the keys of their fields and the leaves at their ends may differ is a
parameter. Records are compared name by name (`Tree.corresponds_record`), which is also how they
unify, so that what a relation says of two fields passes to the records that they are merged into.

Unification respects the relation (`Tree.Corresponds.unify`). It is followed by its own cases, which
`Tree.induct₂` turns into an induction over two trees.

The first use is symmetry. Unification keeps the key of its left side, and it handles the fields of
the two sides in different steps; up to keys this cannot be seen. `Tree.unify_comm` says so of trees
and `Session.unify_symmetric` of the shapes that a caller holds, optional marks included.
-/

namespace JsonShape

/-- Names in ascending order are determined by which names there are. -/
theorem RecordOf.names_eq_of_ascending {α β : Type} {r : RecordOf α} {s : RecordOf β}
    (hr : r.Ascending) (hs : s.Ascending) (h : ∀ n, n ∈ r.names ↔ n ∈ s.names) :
    r.names = s.names :=
  List.Perm.eq_of_pairwise (fun _ _ _ _ hlt hgt => (String.lt_asymm hlt hgt).elim) hr hs
    ((List.perm_ext_iff_of_nodup hr.nodup hs.nodup).2 h)

/-- Cells that are related are joined to cells that are. -/
theorem rel_joinCells {β γ : Type} {R : β → γ → Prop} {both : β → β → β} {both' : γ → γ → γ}
    {one : β → β} {one' : γ → γ} {c d : Option β} {c' d' : Option γ} (hc : Option.Rel R c c')
    (hd : Option.Rel R d d')
    (hboth : ∀ a b a' b', c = some a → d = some b → c' = some a' → d' = some b' → R a a' → R b b' →
      R (both a b) (both' a' b'))
    (hone : ∀ a a', R a a' → R (one a) (one' a')) :
    Option.Rel R (joinCells both one c d) (joinCells both' one' c' d') := by
  cases hc with
  | none =>
    cases hd with
    | none => exact .none
    | some h => exact .some (hone _ _ h)
  | some h =>
    cases hd with
    | none => exact .some (hone _ _ h)
    | some h' => exact .some (hboth _ _ _ _ rfl rfl rfl rfl h h')

namespace Tree

/-- The trees have the same arrays, records and optional marks. The keys of two fields of one name
are related by `keys`, and two leaves at one place by `leaves`. -/
inductive Corresponds (keys : String → String → Prop) (leaves : Tree → Tree → Prop) :
    Tree → Tree → Prop
  | leaf {a b : Tree} (ha : a.IsLeaf) (hb : b.IsLeaf) (h : leaves a b) : Corresponds keys leaves a b
  | array {x y : Tree} (h : Corresponds keys leaves x y) :
    Corresponds keys leaves (.array x) (.array y)
  | record {fs gs : List (FieldOf Tree)} (hnames : RecordOf.names fs = RecordOf.names gs)
    (hkeys : ∀ f ∈ fs, ∀ g ∈ gs, f.name = g.name → keys f.key g.key)
    (h : ∀ f ∈ fs, ∀ g ∈ gs, f.name = g.name → Corresponds keys leaves f.shape g.shape) :
    Corresponds keys leaves (.record fs) (.record gs)
  | optional {x y : Tree} (h : Corresponds keys leaves x y) :
    Corresponds keys leaves (.optional x) (.optional y)

/-- Leaves that are related are both `any`, both `undefined`, or of one kind. -/
structure KeepsKind (leaves : Tree → Tree → Prop) : Prop where
  kind : ∀ {a b : Tree}, leaves a b → a.kind = b.kind
  any : ∀ {a b : Tree}, leaves a b → (a = .any ↔ b = .any)

theorem keepsKind_eq : KeepsKind Eq :=
  ⟨fun h => h ▸ rfl, fun h => h ▸ Iff.rfl⟩

section Corresponds

variable {keys : String → String → Prop} {leaves : Tree → Tree → Prop} {a b : Tree}

/-- Fields that correspond : their keys are related, and their trees correspond. -/
def FieldsCorrespond (keys : String → String → Prop) (leaves : Tree → Tree → Prop)
    (f g : FieldOf Tree) : Prop :=
  keys f.key g.key ∧ Corresponds keys leaves f.shape g.shape

/-- Records correspond if their fields do, name by name. -/
theorem corresponds_record {fs gs : RecordOf Tree} (hf : fs.Ascending) (hg : gs.Ascending)
    (h : ∀ n, Option.Rel (FieldsCorrespond keys leaves) (fs.find? n) (gs.find? n)) :
    Corresponds keys leaves (.record fs) (.record gs) := by
  have hfields : ∀ f ∈ fs, ∀ g ∈ gs, f.name = g.name → FieldsCorrespond keys leaves f g := by
    intro f hmem g hmem' hname
    have hrel := h f.name
    rw [(RecordOf.find?_eq_some_iff hf.nodup).2 ⟨hmem, rfl⟩,
      (RecordOf.find?_eq_some_iff hg.nodup).2 ⟨hmem', hname.symm⟩] at hrel
    cases hrel with
    | some hfg => exact hfg
  refine .record (RecordOf.names_eq_of_ascending hf hg fun n => ?_)
    (fun f hmem g hmem' hname => (hfields f hmem g hmem' hname).1)
    fun f hmem g hmem' hname => (hfields f hmem g hmem' hname).2
  rw [← not_iff_not, ← RecordOf.find?_eq_none_iff, ← RecordOf.find?_eq_none_iff]
  have hrel := h n
  cases hfind : fs.find? n <;> cases hfind' : gs.find? n <;> rw [hfind, hfind'] at hrel
  all_goals cases hrel
  all_goals simp

/-- In records that correspond, the fields of a name do. -/
theorem Corresponds.find? {fs gs : RecordOf Tree}
    (h : Corresponds keys leaves (.record fs) (.record gs)) (n : String) :
    Option.Rel (FieldsCorrespond keys leaves) (fs.find? n) (gs.find? n) := by
  cases h with
  | leaf h => exact h.elim
  | record hnames hkeys hshapes =>
    by_cases hn : n ∈ RecordOf.names fs
    · obtain ⟨f, hf⟩ := RecordOf.exists_find? hn
      obtain ⟨g, hg⟩ := RecordOf.exists_find? (hnames ▸ hn)
      have hname := (RecordOf.name_of_find? hf).trans (RecordOf.name_of_find? hg).symm
      rw [hf, hg]
      exact .some ⟨hkeys f (RecordOf.mem_of_find? hf) g (RecordOf.mem_of_find? hg) hname,
        hshapes f (RecordOf.mem_of_find? hf) g (RecordOf.mem_of_find? hg) hname⟩
    · rw [RecordOf.find?_eq_none_iff.2 hn, RecordOf.find?_eq_none_iff.2 (hnames ▸ hn)]
      exact .none

theorem Corresponds.refl {named : String → String → Prop} {marks p : Bool} (hkeys : ∀ k, keys k k)
    (hleaves : ∀ t, leaves t t) {t : Tree} (h : Formed named marks p t) :
    Corresponds keys leaves t t := by
  induction h with
  | leaf h => exact .leaf h h (hleaves _)
  | array _ _ ih => exact .array ih
  | record _ hasc _ _ _ ih =>
    refine corresponds_record hasc hasc fun n => ?_
    cases hfind : RecordOf.find? _ n with
    | none => exact .none
    | some f => exact .some ⟨hkeys _, ih f (RecordOf.mem_of_find? hfind)⟩
  | optional _ _ _ _ ih => exact .optional ih

theorem Corresponds.of_array {x y : Tree} (h : Corresponds keys leaves (.array x) (.array y)) :
    Corresponds keys leaves x y := by
  cases h with
  | leaf h => exact h.elim
  | array h => exact h

theorem Corresponds.kind (hl : KeepsKind leaves) (h : Corresponds keys leaves a b) :
    a.kind = b.kind := by
  cases h with
  | leaf _ _ h => exact hl.kind h
  | _ => rfl

theorem Corresponds.any_iff (hl : KeepsKind leaves) (h : Corresponds keys leaves a b) :
    a = .any ↔ b = .any := by
  cases h with
  | leaf _ _ h => exact hl.any h
  | _ => simp

theorem Corresponds.isOptional (h : Corresponds keys leaves a b) : a.isOptional = b.isOptional := by
  cases h with
  | @leaf a b ha hb => cases a <;> cases b <;> first | rfl | exact ha.elim | exact hb.elim
  | _ => rfl

theorem Corresponds.dropOptional (h : Corresponds keys leaves a b) :
    Corresponds keys leaves a.dropOptional b.dropOptional := by
  cases hopt : a.isOptional with
  | false =>
    rw [dropOptional_eq_self hopt, dropOptional_eq_self (h.isOptional ▸ hopt)]
    exact h
  | true =>
    cases h with
    | leaf ha =>
      obtain ⟨x, rfl⟩ := eq_optional_of_isOptional hopt
      exact ha.elim
    | optional h => exact h
    | _ => cases hopt

/-- A tree that is not marked, not `any` and of no kind is `undefined`. -/
theorem eq_undefined_iff (t : Tree) :
    t = .undefined ↔ t.isOptional = false ∧ t ≠ .any ∧ t.kind = none := by
  cases t <;> simp [Tree.isOptional, Tree.kind]

theorem Corresponds.undefined_iff (hl : KeepsKind leaves) (h : Corresponds keys leaves a b) :
    a = .undefined ↔ b = .undefined := by
  rw [eq_undefined_iff, eq_undefined_iff, h.isOptional, h.kind hl, ne_eq, h.any_iff hl]

theorem Corresponds.markOptional (hl : KeepsKind leaves) (h : Corresponds keys leaves a b) :
    Corresponds keys leaves a.markOptional b.markOptional := by
  by_cases hany : a = .any
  · have hany' := (h.any_iff hl).1 hany
    subst hany hany'
    exact h
  by_cases hundef : a = .undefined
  · have hundef' := (h.undefined_iff hl).1 hundef
    subst hundef hundef'
    exact h
  cases hopt : a.isOptional with
  | true =>
    obtain ⟨x, rfl⟩ := eq_optional_of_isOptional hopt
    obtain ⟨y, rfl⟩ := eq_optional_of_isOptional (h.isOptional ▸ hopt)
    exact h
  | false =>
    rw [markOptional_of_ne hopt hany hundef, markOptional_of_ne (h.isOptional ▸ hopt)
      (mt (h.any_iff hl).2 hany) (mt (h.undefined_iff hl).2 hundef)]
    exact .optional h

theorem Corresponds.alone (hl : KeepsKind leaves) {o o' : Options}
    (ho : o.optionalFields = o'.optionalFields) (h : Corresponds keys leaves a b) :
    Corresponds keys leaves (a.alone o) (b.alone o') := by
  unfold Tree.alone
  rw [ho]
  split
  · exact h.markOptional hl
  · exact h

end Corresponds

/-! ## Unification by kinds -/

/-- Every tree is `any`, `undefined`, marked, or of some kind. -/
theorem kind_cases (t : Tree) :
    t = .any ∨ t = .undefined ∨ t.isOptional = true ∨ ∃ k, t.kind = some k := by
  cases t <;> simp [kind, isOptional]

/-- Induction over two trees by the cases of unification : a mark on either side is set aside, two
kinds clash, and two arrays or records go on with their parts. -/
@[elab_as_elim]
theorem induct₂ {motive : Tree → Tree → Prop}
    (marked : ∀ a b, a.isOptional = true ∨ b.isOptional = true →
      motive a.dropOptional b.dropOptional → motive a b)
    (anyLeft : ∀ b, motive .any b) (anyRight : ∀ a, motive a .any)
    (undefinedLeft : ∀ b, motive .undefined b) (undefinedRight : ∀ a, motive a .undefined)
    (clash : ∀ a b k l, a.kind = some k → b.kind = some l → k ≠ l → motive a b)
    (truths : motive .bool .bool)
    (scalars : ∀ a b, a.kind = some .scalar → b.kind = some .scalar → motive a b)
    (arrays : ∀ x y, motive x y → motive (.array x) (.array y))
    (records : ∀ fs gs : List (FieldOf Tree), (∀ f ∈ fs, ∀ g ∈ gs, motive f.shape g.shape) →
      motive (.record fs) (.record gs))
    (a b : Tree) : motive a b := by
  induction hn : sizeOf a + sizeOf b using Nat.strong_induction_on generalizing a b with
  | _ n ih =>
  subst hn
  by_cases hopt : a.isOptional = true ∨ b.isOptional = true
  · refine marked a b hopt (ih _ ?_ _ _ rfl)
    have hle := sizeOf_dropOptional_le a
    have hle' := sizeOf_dropOptional_le b
    rcases hopt with h | h
    · have := sizeOf_dropOptional_lt h
      omega
    · have := sizeOf_dropOptional_lt h
      omega
  rw [not_or] at hopt
  obtain rfl | rfl | h | ⟨k, hk⟩ := a.kind_cases
  · exact anyLeft b
  · exact undefinedLeft b
  · exact absurd h hopt.1
  obtain rfl | rfl | h | ⟨l, hl⟩ := b.kind_cases
  · exact anyRight a
  · exact undefinedRight a
  · exact absurd h hopt.2
  by_cases hkl : k = l
  · subst hkl
    cases k with
    | truth =>
      rw [eq_bool_of_kind hk, eq_bool_of_kind hl]
      exact truths
    | scalar => exact scalars a b hk hl
    | array =>
      obtain ⟨x, rfl⟩ := eq_array_of_kind hk
      obtain ⟨y, rfl⟩ := eq_array_of_kind hl
      refine arrays x y (ih _ ?_ _ _ rfl)
      simp only [array.sizeOf_spec]
      omega
    | record =>
      obtain ⟨fs, rfl⟩ := eq_record_of_kind hk
      obtain ⟨gs, rfl⟩ := eq_record_of_kind hl
      refine records fs gs fun f hf g hg => ih _ ?_ _ _ rfl
      have hlt := sizeOf_shape_lt hf
      have hlt' := sizeOf_shape_lt hg
      omega
  · exact clash a b k l hk hl hkl

section Unify

variable {named : String → String → Prop} {marks p q : Bool} {a b : Tree}

theorem Formed.markOptional_dropOptional (h : Formed named marks p a) (hopt : a.isOptional = true) :
    a.dropOptional.markOptional = a := by
  obtain ⟨x, rfl⟩ := eq_optional_of_isOptional hopt
  obtain ⟨-, -, hany, hundef, hx⟩ := h.of_optional
  exact hx.markOptional_eq hany hundef

/-- A mark on either side is set aside and put back, whatever the other side is. -/
theorem unify_of_isOptional (o : Options) (ha : Formed named marks p a)
    (hb : Formed named marks q b) (hopt : a.isOptional = true ∨ b.isOptional = true) :
    unify o a b = (unify o a.dropOptional b.dropOptional).markOptional := by
  by_cases hany : a = .any ∨ b = .any
  · rcases hany with rfl | rfl <;> simp [Tree.dropOptional, Tree.markOptional]
  by_cases heq : a = b
  · subst heq
    rw [unify_self, unify_self, ha.markOptional_dropOptional (hopt.elim id id)]
  by_cases hleft : a = .undefined
  · subst hleft
    have hopt : b.isOptional = true := hopt.resolve_left (by simp [Tree.isOptional])
    simp only [Tree.dropOptional, unify_undefined_left]
    exact (hb.markOptional_dropOptional hopt).symm
  by_cases hright : b = .undefined
  · subst hright
    have hopt : a.isOptional = true := hopt.resolve_right (by simp [Tree.isOptional])
    simp only [Tree.dropOptional, unify_undefined_right]
    exact (ha.markOptional_dropOptional hopt).symm
  · exact unify_inside (by rw [rule, if_neg hany, if_neg heq, if_neg hleft, if_neg hright,
      if_pos hopt])

/-- A relation of leaves that unification respects : it is reflexive, and scalars that are related
unify to scalars that are. -/
structure Respected (leaves : Tree → Tree → Prop) : Prop extends KeepsKind leaves where
  refl : ∀ t, leaves t t
  unify : ∀ {o o' : Options} {a b a' b' : Tree}, a.kind = some .scalar → b.kind = some .scalar →
    leaves a a' → leaves b b' → leaves (unify o a b) (unify o' a' b')

theorem Corresponds.leaves_of_scalar {keys : String → String → Prop} {leaves : Tree → Tree → Prop}
    (h : Corresponds keys leaves a b) (ha : a.kind = some .scalar) : leaves a b := by
  cases h with
  | leaf _ _ h => exact h
  | _ => cases ha

theorem isLeaf_of_scalar (h : a.kind = some .scalar) : a.IsLeaf := by
  cases a <;> simp_all [kind, IsLeaf]

/-- Trees that correspond unify to trees that correspond. -/
theorem Corresponds.unify {keys : String → String → Prop} {leaves : Tree → Tree → Prop}
    (hl : Respected leaves) {o o' : Options} (ho : o.optionalFields = o'.optionalFields)
    {a b a' b' : Tree} (ha : Formed named marks p a) (hb : Formed named marks q b)
    (ha' : Formed named marks p a') (hb' : Formed named marks q b')
    (hleft : Corresponds keys leaves a a') (hright : Corresponds keys leaves b b') :
    Corresponds keys leaves (Tree.unify o a b) (Tree.unify o' a' b') := by
  have hkinds := hl.toKeepsKind
  have hsame : ∀ {t : Tree}, t.IsLeaf → Corresponds keys leaves t t :=
    fun ht => .leaf ht ht (hl.refl _)
  induction a, b using induct₂ generalizing a' b' p q with
  | marked a b hopt ih =>
    have hopt' : a'.isOptional = true ∨ b'.isOptional = true := by
      rwa [← hleft.isOptional, ← hright.isOptional]
    rw [unify_of_isOptional o ha hb hopt, unify_of_isOptional o' ha' hb' hopt']
    exact (ih ha.dropOptional hb.dropOptional ha'.dropOptional hb'.dropOptional hleft.dropOptional
      hright.dropOptional).markOptional hkinds
  | anyLeft b =>
    rw [(hleft.any_iff hkinds).1 rfl, unify_any_left, unify_any_left]
    exact hsame trivial
  | anyRight a =>
    rw [(hright.any_iff hkinds).1 rfl, unify_any_right, unify_any_right]
    exact hsame trivial
  | undefinedLeft b =>
    rw [(hleft.undefined_iff hkinds).1 rfl, unify_undefined_left, unify_undefined_left]
    exact hright
  | undefinedRight a =>
    rw [(hright.undefined_iff hkinds).1 rfl, unify_undefined_right, unify_undefined_right]
    exact hleft
  | clash a b k l hk hl' hkl =>
    rw [unify_eq_any_of_kind_ne o hk hl' hkl, unify_eq_any_of_kind_ne o'
      ((hleft.kind hkinds).symm.trans hk) ((hright.kind hkinds).symm.trans hl') hkl]
    exact hsame trivial
  | truths =>
    rw [eq_bool_of_kind (hleft.kind hkinds).symm,
      eq_bool_of_kind (hright.kind hkinds).symm, unify_self, unify_self]
    exact hsame trivial
  | scalars a b hk hk' =>
    have hka' := (hleft.kind hkinds).symm.trans hk
    have hkb' := (hright.kind hkinds).symm.trans hk'
    exact .leaf (isLeaf_of_scalar (kind_unify_scalar o hk hk'))
      (isLeaf_of_scalar (kind_unify_scalar o' hka' hkb'))
      (hl.unify hk hk' (hleft.leaves_of_scalar hk) (hright.leaves_of_scalar hk'))
  | arrays x y ih =>
    obtain ⟨x', rfl⟩ := eq_array_of_kind (hleft.kind hkinds).symm
    obtain ⟨y', rfl⟩ := eq_array_of_kind (hright.kind hkinds).symm
    rw [unify_array, unify_array]
    exact .array (ih ha.of_array hb.of_array ha'.of_array hb'.of_array hleft.of_array
      hright.of_array)
  | records fs gs ih =>
    obtain ⟨fs', rfl⟩ := eq_record_of_kind (hleft.kind hkinds).symm
    obtain ⟨gs', rfl⟩ := eq_record_of_kind (hright.kind hkinds).symm
    obtain ⟨hs, hunify, hasc, hfind⟩ := exists_unify_record o ha.ascending hb.ascending
    obtain ⟨hs', hunify', hasc', hfind'⟩ := exists_unify_record o' ha'.ascending hb'.ascending
    rw [hunify, hunify']
    refine corresponds_record hasc hasc' fun n => ?_
    rw [hfind, hfind']
    refine rel_joinCells (hleft.find? n) (hright.find? n)
      (fun f g f' g' hf hg hf' hg' hff hgg => ?_)
      (fun f f' hff => ⟨hff.1, hff.2.alone hkinds ho⟩)
    have hmem := RecordOf.mem_of_find? hf
    have hmem' := RecordOf.mem_of_find? hg
    exact ⟨hff.1, ih f hmem g hmem' (ha.fields f hmem).2 (hb.fields g hmem').2
      (ha'.fields f' (RecordOf.mem_of_find? hf')).2 (hb'.fields g' (RecordOf.mem_of_find? hg')).2
      hff.2 hgg.2⟩

end Unify

/-! ## Symmetry -/

/-- The trees are the same but for the keys of their fields. -/
abbrev SameButKeys : Tree → Tree → Prop :=
  Corresponds (fun _ _ => True) Eq

theorem Formed.sameButKeys {named : String → String → Prop} {marks p : Bool} {t : Tree}
    (h : Formed named marks p t) : SameButKeys t t :=
  .refl (fun _ => trivial) (fun _ => rfl) h

theorem unify_scalar_comm (o : Options) {a b : Tree} (ha : a.kind = some .scalar)
    (hb : b.kind = some .scalar) : unify o a b = unify o b a := by
  rw [unify_scalar o ha hb, unify_scalar o hb ha]
  cases a <;> cases b <;> simp_all [kind, breadth]

/-- Unification is symmetric but for the keys of records, whether fields are marked or not. -/
theorem unify_comm (o : Options) {named : String → String → Prop} {marks : Bool}
    (hmarks : o.optionalFields = true → marks = true) {p q : Bool} {a b : Tree}
    (ha : Formed named marks p a) (hb : Formed named marks q b) :
    SameButKeys (unify o a b) (unify o b a) := by
  induction a, b using induct₂ generalizing p q with
  | marked a b hopt ih =>
    rw [unify_of_isOptional o ha hb hopt, unify_of_isOptional o hb ha hopt.symm]
    exact (ih ha.dropOptional hb.dropOptional).markOptional keepsKind_eq
  | anyLeft b => simpa using ha.sameButKeys
  | anyRight a => simpa using hb.sameButKeys
  | undefinedLeft b => simpa using hb.sameButKeys
  | undefinedRight a => simpa using ha.sameButKeys
  | clash a b k l hk hl hkl =>
    rw [unify_eq_any_of_kind_ne o hk hl hkl, unify_eq_any_of_kind_ne o hl hk (Ne.symm hkl)]
    exact .leaf trivial trivial rfl
  | truths => simpa using ha.sameButKeys
  | scalars a b hk hl =>
    rw [unify_scalar_comm o hk hl, unify_scalar o hl hk]
    split
    · exact ha.sameButKeys
    · exact hb.sameButKeys
  | arrays x y ih =>
    rw [unify_array, unify_array]
    exact .array (ih ha.of_array hb.of_array)
  | records fs gs ih =>
    obtain ⟨left, hleft, hlasc, hlfind⟩ := exists_unify_record o ha.ascending hb.ascending
    obtain ⟨right, hright, hrasc, hrfind⟩ := exists_unify_record o hb.ascending ha.ascending
    rw [hleft, hright]
    refine corresponds_record hlasc hrasc fun n => ?_
    rw [hlfind, hrfind]
    cases hf : RecordOf.find? fs n with
    | none =>
      cases hg : RecordOf.find? gs n with
      | none => exact .none
      | some g =>
        have hform := (hb.fields g (RecordOf.mem_of_find? hg)).2
        exact .some ⟨trivial, (hform.alone hmarks).sameButKeys⟩
    | some f =>
      have hform := (ha.fields f (RecordOf.mem_of_find? hf)).2
      cases hg : RecordOf.find? gs n with
      | none => exact .some ⟨trivial, (hform.alone hmarks).sameButKeys⟩
      | some g =>
        have hmem := RecordOf.mem_of_find? hg
        exact .some ⟨trivial, ih f (RecordOf.mem_of_find? hf) g hmem hform (hb.fields g hmem).2⟩

end Tree

namespace Session

/-- The order in which a caller unifies two shapes shows in the keys of records alone. The two
results, unfolded, have the same names, leaves and optional marks, whether both calls are made on
one session or the second on what the first has left. -/
theorem unify_symmetric {allowed : Options → Prop} {s : Session} {returned : List Shape}
    (h : s.Reached allowed returned) (o : Options) {a b : Shape} (ha : s.Held returned a)
    (hb : s.Held returned b) :
    ∃ x s₁ y s₂ z s₃, (unify o a b).run s = (.ok x, s₁) ∧ (unify o b a).run s = (.ok y, s₂) ∧
      (unify o b a).run s₁ = (.ok z, s₃) ∧
      (s₁.table.tree x).SameButKeys (s₂.table.tree y) ∧
      (s₃.table.tree x).SameButKeys (s₃.table.tree z) := by
  have hP : ∀ o, Tree.Inferred o (Tree.Formed NamedByKey true true) :=
    fun o => Tree.inferred_formed fun _ => rfl
  obtain ⟨hs, hk⟩ := h.sound fun o _ => hP o
  have hka := ha.knows (hP o).toKept hs hk
  have hkb := hb.knows (hP o).toKept hs hk
  have hcomm := Tree.unify_comm o (fun _ => rfl) hka.holds hkb.holds
  obtain ⟨x, s₁, hx, hadv, hkx, hxtree⟩ := unify_gives (hP o).toKept hs hka hkb
  obtain ⟨y, s₂, hy, -, -, hytree⟩ := unify_gives (hP o).toKept hs hkb hka
  obtain ⟨z, s₃, hz, hadv', -, hztree⟩ :=
    unify_gives (hP o).toKept hadv.sound (hkb.grow hadv.grows) (hka.grow hadv.grows)
  refine ⟨x, s₁, y, s₂, z, s₃, hx, hy, hz, ?_, ?_⟩
  · rw [hxtree, hytree]
    exact hcomm
  · rw [hadv'.grows.tree_eq hkx.within, hxtree, hztree, hadv.grows.tree_eq hka.within,
      hadv.grows.tree_eq hkb.within]
    exact hcomm

/-- Two objects that spell one name differently, each with an object inside that lacks the key of
the other one. -/
theorem unify_symmetric_twoSpellings :
    ∃ s : Session, s.Reached (fun _ => True) [.record 3, .record 1] ∧
      ∃ x s₁ y s₂, (unify { optionalFields := true } (.record 1) (.record 3)).run s = (.ok x, s₁) ∧
        (unify { optionalFields := true } (.record 3) (.record 1)).run s = (.ok y, s₂) ∧
        (s₁.table.tree x).SameButKeys (s₂.table.tree y) := by
  have hone := (Reached.start "S" : Session.Reached (fun _ => True) _ _).infer (o := {})
    (v := .object [(.text "a_b", .object [(.text "c", .int 1)])]) trivial (Prod.eta _).symm
  have htwo := hone.infer (o := {})
    (v := .object [(.text "aB", .object [(.text "d", .bool true)])]) trivial (Prod.eta _).symm
  obtain ⟨s, hs⟩ : ∃ s : Session, s.Reached (fun _ => True) [.record 3, .record 1] :=
    ⟨_, Eq.subst (motive := fun r => Session.Reached _ _ r) (by decide +kernel) htwo⟩
  obtain ⟨x, s₁, y, s₂, -, -, hx, hy, -, hsame, -⟩ :=
    unify_symmetric hs { optionalFields := true } (a := .record 1) (b := .record 3)
      (Or.inl (by simp)) (Or.inl (by simp))
  exact ⟨s, hs, x, s₁, y, s₂, hx, hy, hsame⟩

end Session

end JsonShape
