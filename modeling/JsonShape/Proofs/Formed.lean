import JsonShape.Proofs.TreeInfer

/-!
# Well-formed trees

`Tree.Formed named marks outer` says that a tree has the form that inference and unification give :
every record has fields, sorted by name, where `named` relates the name of a field to its key; an
optional mark stands outermost on a field or nowhere, and never on `any` or `undefined`. With
`marks` off there are no optional marks at all, and `outer` says whether the tree itself may carry
one. In general a field is named by the identifier of its key (`NamedByKey`).

On well-formed trees unification follows the rules of `Tree.Unifies`, one constructor for each rule
(`Formed.unifies`). The result is well formed again, and so is what inference finds, so that
well-formedness can be carried along any run on a session (`Tree.inferred_formed`).
-/

namespace JsonShape

/-- The name of a field is the identifier of its key. -/
def NamedByKey (name key : String) : Prop :=
  identifierOf key = name

namespace Tree

/-- Well-formed trees, with optional marks or without, and with one outermost or not. -/
inductive Formed (named : String → String → Prop) (marks : Bool) : Bool → Tree → Prop
  | leaf {t : Tree} (h : t.IsLeaf) (outer : Bool) : Formed named marks outer t
  | array {e : Tree} (h : Formed named marks false e) (outer : Bool) :
    Formed named marks outer (.array e)
  | record {fs : List (FieldOf Tree)} (hne : fs ≠ []) (hasc : RecordOf.Ascending fs)
    (hkey : ∀ f ∈ fs, named f.name f.key) (h : ∀ f ∈ fs, Formed named marks true f.shape)
    (outer : Bool) : Formed named marks outer (.record fs)
  | optional {x : Tree} (hm : marks = true) (hany : x ≠ .any) (hundef : x ≠ .undefined)
    (h : Formed named marks false x) : Formed named marks true (.optional x)

variable {named : String → String → Prop}

section Formed

variable {marks outer : Bool}

theorem Formed.of_array {e : Tree} (h : Formed named marks outer (.array e)) :
    Formed named marks false e := by
  cases h with
  | leaf h => exact h.elim
  | array h => exact h

theorem Formed.of_optional {x : Tree} (h : Formed named marks outer (.optional x)) :
    outer = true ∧ marks = true ∧ x ≠ .any ∧ x ≠ .undefined ∧ Formed named marks false x := by
  cases h with
  | leaf h => exact h.elim
  | optional hm hany hundef h => exact ⟨rfl, hm, hany, hundef, h⟩

theorem Formed.ascending {fs : List (FieldOf Tree)} (h : Formed named marks outer (.record fs)) :
    RecordOf.Ascending fs := by
  cases h with
  | leaf h => exact h.elim
  | record _ hasc => exact hasc

theorem Formed.fields {fs : List (FieldOf Tree)} (h : Formed named marks outer (.record fs)) :
    ∀ f ∈ fs, named f.name f.key ∧ Formed named marks true f.shape := by
  cases h with
  | leaf h => exact h.elim
  | record _ _ hkey h => exact fun f hf => ⟨hkey f hf, h f hf⟩

theorem Formed.ne_nil {fs : List (FieldOf Tree)} (h : Formed named marks outer (.record fs)) :
    fs ≠ [] := by
  cases h with
  | leaf h => exact h.elim
  | record hne => exact hne

/-- Only an optional tree cares whether it may be one. -/
theorem Formed.of_not_isOptional {t : Tree} (h : Formed named marks outer t)
    (ht : t.isOptional = false) (outer' : Bool) : Formed named marks outer' t := by
  cases h with
  | leaf h => exact .leaf h _
  | array h => exact .array h _
  | record hne hasc hkey h => exact .record hne hasc hkey h _
  | optional => simp [isOptional] at ht

theorem Formed.outermost {t : Tree} (h : Formed named marks outer t) :
    Formed named marks true t := by
  cases ht : t.isOptional with
  | false => exact h.of_not_isOptional ht true
  | true =>
    obtain ⟨x, rfl⟩ := eq_optional_of_isOptional ht
    obtain ⟨rfl, -⟩ := h.of_optional
    exact h

theorem Formed.dropOptional {t : Tree} (h : Formed named marks outer t) :
    Formed named marks false t.dropOptional := by
  cases ht : t.isOptional with
  | false =>
    rw [dropOptional_eq_self ht]
    exact h.of_not_isOptional ht false
  | true =>
    obtain ⟨x, rfl⟩ := eq_optional_of_isOptional ht
    exact h.of_optional.2.2.2.2

theorem Formed.markOptional {t : Tree} (hm : marks = true) (h : Formed named marks outer t) :
    Formed named marks true t.markOptional := by
  cases t with
  | any => exact .leaf (by trivial) _
  | undefined => exact .leaf (by trivial) _
  | optional x => exact h.outermost
  | _ => exact .optional hm (by simp) (by simp) (h.of_not_isOptional rfl false)

theorem Formed.alone {o : Options} {t : Tree} (ho : o.optionalFields = true → marks = true)
    (h : Formed named marks true t) : Formed named marks true (t.alone o) := by
  unfold Tree.alone
  split
  · exact h.markOptional (ho ‹_›)
  · exact h

end Formed

/-! ## The rules as a relation -/

/-- What kind of values a tree describes. -/
inductive Kind where
  | truth
  | scalar
  | array
  | record
deriving DecidableEq

/-- The kind of a tree that describes values of one kind. -/
def kind : Tree → Option Kind
  | .bool => some .truth
  | .int64 | .float64 | .string => some .scalar
  | .array _ => some .array
  | .record _ => some .record
  | _ => none

/-- Two trees unify to a third one. -/
inductive Unifies (o : Options) : Tree → Tree → Tree → Prop
  | anyLeft (b : Tree) : Unifies o .any b .any
  | anyRight (a : Tree) : Unifies o a .any .any
  | same (a : Tree) : Unifies o a a a
  | undefinedLeft (b : Tree) : Unifies o .undefined b b
  | undefinedRight (a : Tree) : Unifies o a .undefined a
  | inside {a b c : Tree} (ho : a.isOptional ∨ b.isOptional)
    (h : Unifies o a.dropOptional b.dropOptional c) : Unifies o a b c.markOptional
  | numbers {a b : Tree} (ha : a.isNumeric) (hb : b.isNumeric) (hne : a ≠ b) :
    Unifies o a b .float64
  | numberText {a : Tree} (ha : a.isNumeric) : Unifies o a .string .string
  | textNumber {b : Tree} (hb : b.isNumeric) : Unifies o .string b .string
  | clash {a b : Tree} {k l : Kind} (ha : a.kind = some k) (hb : b.kind = some l) (hne : k ≠ l) :
    Unifies o a b .any
  | array {x y z : Tree} (h : Unifies o x y z) : Unifies o (.array x) (.array y) (.array z)
  | record {fs gs : List (FieldOf Tree)} (hf : RecordOf.Ascending fs) (hg : RecordOf.Ascending gs)
    (h : ∀ f ∈ fs, ∀ g ∈ gs, Unifies o f.shape g.shape (unify o f.shape g.shape)) :
    Unifies o (.record fs) (.record gs)
      (.record (RecordOf.sorted (RecordOf.combine (unify o) (alone o) fs gs)))

/-- Trees that no rule brings together are of different kinds. -/
theorem kind_ne_of_partsRule {a b : Tree} (hany : ¬(a = .any ∨ b = .any)) (hne : a ≠ b)
    (ha : a ≠ .undefined) (hb : b ≠ .undefined) (hopt : ¬(a.isOptional ∨ b.isOptional))
    (hnum : ¬(a.isNumeric ∧ b.isNumeric))
    (htext : ¬((a.isNumeric ∧ b = .string) ∨ (a = .string ∧ b.isNumeric)))
    (harray : ∀ x y, a = .array x → b = .array y → False)
    (hrecord : ∀ fs gs, a = .record fs → b = .record gs → False) :
    ∃ k l, a.kind = some k ∧ b.kind = some l ∧ k ≠ l := by
  cases a <;> cases b <;> simp_all [isOptional, isNumeric, kind]

theorem sizeOf_dropOptional_lt {t : Tree} (h : t.isOptional) :
    sizeOf t.dropOptional < sizeOf t := by
  obtain ⟨x, rfl⟩ := eq_optional_of_isOptional h
  simp [Tree.dropOptional]

theorem sizeOf_dropOptional_le (t : Tree) : sizeOf t.dropOptional ≤ sizeOf t := by
  cases t <;> simp [Tree.dropOptional]

/-- Well-formed trees unify by the rules. -/
theorem Formed.unifies (o : Options) {marks p q : Bool} {a b : Tree} (ha : Formed named marks p a)
    (hb : Formed named marks q b) : Unifies o a b (unify o a b) := by
  induction hn : sizeOf a + sizeOf b using Nat.strong_induction_on generalizing a b p q with
  | _ n ih =>
  subst hn
  generalize hr : rule a b = r
  have hrule := hr
  unfold rule at hr
  split_ifs at hr with h1 h2 h3 h4 h5 h6 h7
  · subst hr
    rw [unify_settled hrule]
    rcases h1 with rfl | rfl
    · exact .anyLeft b
    · exact .anyRight a
  · subst h2
    rw [unify_self]
    exact .same a
  · subst h3
    rw [unify_undefined_left]
    exact .undefinedLeft b
  · subst h4
    rw [unify_undefined_right]
    exact .undefinedRight a
  · subst hr
    rw [unify_inside hrule]
    refine .inside h5 (ih _ ?_ ha.dropOptional hb.dropOptional rfl)
    have hle := sizeOf_dropOptional_le a
    have hle' := sizeOf_dropOptional_le b
    rcases h5 with h | h
    · have := sizeOf_dropOptional_lt h
      omega
    · have := sizeOf_dropOptional_lt h
      omega
  · subst hr
    rw [unify_settled hrule]
    exact .numbers h6.1 h6.2 h2
  · subst hr
    rw [unify_settled hrule]
    rcases h7 with ⟨ha, rfl⟩ | ⟨rfl, hb⟩
    · exact .numberText ha
    · exact .textNumber hb
  · unfold partsRule at hr
    split at hr
    · rw [unify_array]
      refine .array (ih _ ?_ ha.of_array hb.of_array rfl)
      simp only [array.sizeOf_spec]
      omega
    · rw [unify_record o ha.ascending hb.ascending]
      refine .record ha.ascending hb.ascending fun f hf g hg =>
        ih _ ?_ (ha.fields f hf).2 (hb.fields g hg).2 rfl
      have hlt := sizeOf_shape_lt hf
      have hlt' := sizeOf_shape_lt hg
      omega
    · rename_i harray hrecord
      subst hr
      rw [unify_settled hrule]
      obtain ⟨k, l, hk, hl, hkl⟩ := kind_ne_of_partsRule h1 h2 h3 h4 h5 h6 h7 harray hrecord
      exact .clash hk hl hkl

/-! ## Unification and inference keep the form -/

theorem Formed.record_sorted {marks : Bool} {fs : List (FieldOf Tree)} (hne : fs ≠ [])
    (hnodup : (RecordOf.names fs).Nodup)
    (h : ∀ f ∈ fs, named f.name f.key ∧ Formed named marks true f.shape) (outer : Bool) :
    Formed named marks outer (.record (RecordOf.sorted fs)) := by
  refine .record ?_ (RecordOf.ascending_sorted hnodup) ?_ ?_ outer
  · intro hnil
    have hperm := RecordOf.sorted_perm fs
    rw [hnil] at hperm
    exact hne hperm.nil_eq.symm
  · exact fun f hf => (h f (RecordOf.mem_sorted.1 hf)).1
  · exact fun f hf => (h f (RecordOf.mem_sorted.1 hf)).2

theorem Unifies.formed {o : Options} {marks : Bool} (ho : o.optionalFields = true → marks = true)
    {a b c : Tree} (hu : Unifies o a b c) {outer : Bool} (ha : Formed named marks outer a)
    (hb : Formed named marks outer b) : Formed named marks outer c := by
  induction hu generalizing outer with
  | anyLeft => exact ha
  | anyRight => exact hb
  | same => exact ha
  | undefinedLeft => exact hb
  | undefinedRight => exact ha
  | inside hopt _ ih =>
    obtain ⟨rfl, hm⟩ : outer = true ∧ marks = true := by
      rcases hopt with h | h
      · obtain ⟨x, rfl⟩ := eq_optional_of_isOptional h
        exact ⟨ha.of_optional.1, ha.of_optional.2.1⟩
      · obtain ⟨x, rfl⟩ := eq_optional_of_isOptional h
        exact ⟨hb.of_optional.1, hb.of_optional.2.1⟩
    exact (ih ha.dropOptional hb.dropOptional).markOptional hm
  | numbers => exact .leaf (by trivial) _
  | numberText => exact hb
  | textNumber => exact ha
  | clash => exact .leaf (by trivial) _
  | array _ ih => exact .array (ih ha.of_array hb.of_array) _
  | record hf hg _ ih =>
    refine .record_sorted ?_ (RecordOf.nodup_names_combine _ _ hf.nodup hg.nodup) ?_ outer
    · intro hnil
      have hmap := (List.append_eq_nil_iff.1 hnil).1
      exact ha.ne_nil (List.map_eq_nil_iff.1 hmap)
    · intro f hmem
      rcases (RecordOf.mem_combine hg.nodup).1 hmem with
        ⟨g, hg', h, hh, -, rfl⟩ | ⟨g, hg', -, rfl⟩ | ⟨h, hh, -, rfl⟩
      · exact ⟨(ha.fields g hg').1, ih g hg' h hh (ha.fields g hg').2 (hb.fields h hh).2⟩
      · exact ⟨(ha.fields g hg').1, (ha.fields g hg').2.alone ho⟩
      · exact ⟨(hb.fields h hh).1, (hb.fields h hh).2.alone ho⟩

theorem Formed.unify {o : Options} {marks outer : Bool}
    (ho : o.optionalFields = true → marks = true) {a b : Tree} (ha : Formed named marks outer a)
    (hb : Formed named marks outer b) : Formed named marks outer (unify o a b) :=
  (ha.unifies o hb).formed ho ha hb

theorem formed_leafTree {s : Shape} (h : s.IsLeaf) (marks outer : Bool) :
    Formed named marks outer s.leafTree := by
  cases s <;> exact .leaf (by trivial) _

theorem formed_of_inferItems {o : Options} {marks : Bool}
    (ho : o.optionalFields = true → marks = true) {items : List Value} {found T : Tree}
    (ih : ∀ v ∈ items, ∀ {T : Tree}, infer o v = .ok T → Formed named marks false T)
    (hf : Formed named marks false found) (h : inferItems o found items = .ok T) :
    Formed named marks false T := by
  induction items generalizing found with
  | nil =>
    rw [inferItems] at h
    exact Except.ok.inj h ▸ hf
  | cons item rest ihrest =>
    obtain ⟨t, ht, ⟨-, rfl⟩ | ⟨-, h⟩⟩ := inferItems_cons_eq_ok.1 h
    · exact .leaf (by trivial) _
    · exact ihrest (fun v hv => ih v (List.mem_cons_of_mem _ hv))
        (hf.unify ho (ih item (List.mem_cons_self ..) ht)) h

theorem names_of_forall₂ {o : Options} {entries : List (Value × Value)} {fs : List (FieldOf Tree)}
    (h : List.Forall₂ (IsField o) entries fs) :
    (entries.map Prod.fst).map Value.identifier? = (RecordOf.names fs).map some := by
  induction h with
  | nil => rfl
  | cons hf _ ih => simp [hf.identifier, ih]

/-- An object's fields have different names. -/
theorem nodup_names_of_forall₂ {o : Options} {entries : List (Value × Value)}
    {fs : List (FieldOf Tree)} (hkeys : Nameable (entries.map Prod.fst))
    (h : List.Forall₂ (IsField o) entries fs) : (RecordOf.names fs).Nodup := by
  have hnodup := hkeys.nodup
  rw [names_of_forall₂ h] at hnodup
  exact hnodup.of_map

/-- What inference finds is well formed, with keys of the value. -/
theorem formed_of_infer {o : Options} {marks : Bool} (ho : o.optionalFields = true → marks = true)
    {v : Value} (hkeys : ∀ k, v.HasKey k → named (identifierOf k) k) {T : Tree}
    (h : infer o v = .ok T) : Formed named marks false T := by
  have hundef : Formed named marks false .undefined := .leaf (by trivial) _
  induction v using Value.induct generalizing T with
  | int n =>
    rw [infer] at h
    exact Except.ok.inj h ▸ formed_leafTree (integerShape_isLeaf n) _ _
  | text s =>
    obtain ⟨x, hx, rfl⟩ := infer_text_eq_ok.1 h
    exact formed_leafTree (isLeaf_of_textShape hx) _ _
  | list items ih | tuple items ih =>
    obtain ⟨E, hE, rfl⟩ := (infer_items_eq_ok rfl).1 h
    refine .array (formed_of_inferItems ho (fun v hv => ih v hv fun k hk => ?_) hundef hE) _
    exact hkeys k ((Value.hasKey_items_iff rfl).2 ⟨v, hv, hk⟩)
  | object entries ih =>
    obtain ⟨-, rfl⟩ | ⟨-, rfl⟩ | ⟨hne, hnameable, fs, hfs, rfl⟩ := infer_object_eq_ok.1 h
    · exact hundef
    · exact .leaf (by trivial) _
    · refine .record_sorted ?_ (nodup_names_of_forall₂ hnameable hfs) (fun f hf => ?_) _
      · rintro rfl
        exact hne (List.forall₂_nil_right_iff.1 hfs)
      · obtain ⟨e, he, hfield⟩ := exists_of_forall₂_right hfs hf
        have hkey : Value.HasKey f.key (.object entries) :=
          .here (v := e.2) (by rw [← hfield.key]; exact he)
        have hform := ih e he (fun k hk => hkeys k (.object he hk)) hfield.shape
        exact ⟨hfield.name ▸ hkeys _ hkey, hform.outermost⟩
  | _ =>
    rw [infer] at h
    exact Except.ok.inj h ▸ .leaf (by trivial) _

/-- Every run keeps its trees well formed, and free of optional marks if it never sets one. -/
theorem inferred_formed {o : Options} {marks : Bool}
    (ho : o.optionalFields = true → marks = true) : Inferred o (Formed NamedByKey marks true) where
  array := fun h => h.of_array.outermost
  record := fun h f hf => (h.fields f hf).2
  optional := fun h => h.of_optional.2.2.2.2.outermost
  alone := fun h => h.alone ho
  unify := fun hx hy => hx.unify ho hy
  infer := fun h => (formed_of_infer ho (fun _ _ => rfl) h).outermost

end Tree

end JsonShape
