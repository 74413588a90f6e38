import JsonShape.Proofs.Canonical

/-!
# Erasing optional marks

With optional fields on, records that would be one record differ in their marks, so the two modes
store different records at different handles, and a rule that settles a pair of shapes in one mode
merges them field by field in the other. Seen through trees the modes still run side by side :
`Tree.erase` takes every optional mark off a tree, and it commutes with unification
(`Tree.Unifies.erase`) and with inference (`Tree.infer_erase`).

`Session.infer_marks_erase` says so of sessions : with marks and without them inference returns on
the same values, and the marked tree is the unmarked one with marks added.
-/

namespace JsonShape

/-! ## Renaming the descriptions of merged fields -/

theorem RecordOf.paired_map {α β : Type} {g : α → β} {J : α → α → α} {K : β → β → β}
    {alone : α → α} {alone' : β → β} {right : RecordOf α} {f : FieldOf α}
    (halone : ∀ x, g (alone x) = alone' (g x))
    (hJ : ∀ h ∈ right, g (J f.shape h.shape) = K (g f.shape) (g h.shape)) :
    paired K alone' (right.map (FieldOf.map g)) (f.map g) = (paired J alone right f).map g := by
  unfold paired
  rw [FieldOf.map_name, find?_map]
  cases hfind : right.find? f.name with
  | none => simp [FieldOf.map, halone]
  | some h => simp [FieldOf.map, hJ h (mem_of_find? hfind)]

/-- A map that respects how fields are combined and marked respects merging. -/
theorem RecordOf.combine_map {α β : Type} {g : α → β} {J : α → α → α} {K : β → β → β}
    {alone : α → α} {alone' : β → β} {left right : RecordOf α}
    (halone : ∀ x, g (alone x) = alone' (g x))
    (hJ : ∀ f ∈ left, ∀ h ∈ right, g (J f.shape h.shape) = K (g f.shape) (g h.shape)) :
    combine K alone' (left.map (FieldOf.map g)) (right.map (FieldOf.map g)) =
      (combine J alone left right).map (FieldOf.map g) := by
  unfold combine
  rw [List.map_append, List.map_map, List.map_map]
  congr 1
  · exact List.map_congr_left fun f hf => paired_map halone (hJ f hf)
  · rw [List.filter_map, List.map_map, List.map_map, names_map]
    refine List.map_congr_left fun f _ => ?_
    simp [FieldOf.map, halone]

theorem Shape.IsLeaf.leafTree {s : Shape} (h : s.IsLeaf) : s.leafTree.IsLeaf := by
  cases s with
  | array | record | optional => exact h.elim
  | _ => trivial

namespace Tree

mutual

/-- The tree without its optional marks, at any depth. -/
def erase : Tree → Tree
  | .array element => .array element.erase
  | .record fields => .record (eraseFields fields)
  | .optional inner => inner.erase
  | t => t

/-- The fields, each without its optional marks. -/
def eraseFields : List (FieldOf Tree) → List (FieldOf Tree)
  | [] => []
  | ⟨name, key, shape⟩ :: rest => ⟨name, key, shape.erase⟩ :: eraseFields rest

end

theorem eraseFields_eq_map (fs : List (FieldOf Tree)) :
    eraseFields fs = fs.map (FieldOf.map erase) := by
  induction fs with
  | nil => rw [eraseFields, List.map_nil]
  | cons f fs ih => rw [eraseFields, List.map_cons, ih, FieldOf.map]

@[simp] theorem erase_array (e : Tree) : (Tree.array e).erase = .array e.erase := by
  rw [erase]

@[simp] theorem erase_record (fs : List (FieldOf Tree)) :
    (Tree.record fs).erase = .record (fs.map (FieldOf.map erase)) := by
  rw [erase, eraseFields_eq_map]

@[simp] theorem erase_optional (x : Tree) : (Tree.optional x).erase = x.erase := by
  rw [erase]

theorem erase_leaf {t : Tree} (h : t.IsLeaf) : t.erase = t := by
  cases t with
  | array | record | optional => exact h.elim
  | _ => simp [erase]

@[simp] theorem erase_markOptional (t : Tree) : t.markOptional.erase = t.erase := by
  cases t <;> simp [Tree.markOptional]

@[simp] theorem erase_dropOptional (t : Tree) : t.dropOptional.erase = t.erase := by
  cases t <;> simp [Tree.dropOptional]

@[simp] theorem erase_alone (o : Options) (t : Tree) : (t.alone o).erase = t.erase := by
  unfold Tree.alone
  split
  · exact erase_markOptional t
  · rfl

theorem erase_leafTree {s : Shape} (h : s.IsLeaf) : s.leafTree.erase = s.leafTree :=
  erase_leaf h.leafTree

theorem kind_erase {t : Tree} {k : Kind} (h : t.kind = some k) : t.erase.kind = some k := by
  cases t <;> simp_all [kind, erase]

theorem ascending_map_erase {fs : List (FieldOf Tree)} (h : RecordOf.Ascending fs) :
    RecordOf.Ascending (fs.map (FieldOf.map erase)) := by
  rw [RecordOf.Ascending, RecordOf.names_map]
  exact h

theorem unify_eq_any_of_kind_ne (o : Options) {a b : Tree} {k l : Kind} (ha : a.kind = some k)
    (hb : b.kind = some l) (hne : k ≠ l) : unify o a b = .any := by
  refine unify_settled ?_
  cases a <;> cases b <;> simp_all [kind, rule, partsRule, isOptional, isNumeric]

theorem alone_of_off {o : Options} (ho : o.optionalFields = false) (t : Tree) : t.alone o = t := by
  simp [Tree.alone, ho]

/-! ## Unification and inference without marks -/

/-- Without marks, two trees unify to what they unify to with them, without its marks. -/
theorem Unifies.erase {o off : Options} (hoff : off.optionalFields = false) {a b c : Tree}
    (h : Unifies o a b c) : unify off a.erase b.erase = c.erase := by
  induction h with
  | anyLeft b => rw [erase_leaf (t := .any) trivial, unify_any_left]
  | anyRight a => rw [erase_leaf (t := .any) trivial, unify_any_right]
  | same a => exact unify_self off a.erase
  | undefinedLeft b => rw [erase_leaf (t := .undefined) trivial, unify_undefined_left]
  | undefinedRight a => rw [erase_leaf (t := .undefined) trivial, unify_undefined_right]
  | inside _ _ ih =>
    rw [erase_markOptional]
    rwa [erase_dropOptional, erase_dropOptional] at ih
  | @numbers a b ha hb hne =>
    refine unify_settled ?_
    cases a <;> cases b <;> simp_all [Tree.erase, rule, isOptional, isNumeric]
  | @numberText a ha =>
    refine unify_settled ?_
    cases a <;> simp_all [Tree.erase, rule, isOptional, isNumeric]
  | @textNumber b hb =>
    refine unify_settled ?_
    cases b <;> simp_all [Tree.erase, rule, isOptional, isNumeric]
  | clash ha hb hne =>
    rw [erase_leaf (t := .any) trivial]
    exact unify_eq_any_of_kind_ne off (kind_erase ha) (kind_erase hb) hne
  | array _ ih => rw [erase_array, erase_array, erase_array, unify_array, ih]
  | @record fs gs hf hg _ ih =>
    have hcombine : RecordOf.combine (unify off) (Tree.alone off) (fs.map (FieldOf.map Tree.erase))
        (gs.map (FieldOf.map Tree.erase)) =
          (RecordOf.combine (unify o) (Tree.alone o) fs gs).map (FieldOf.map Tree.erase) := by
      refine RecordOf.combine_map (fun x => ?_) fun f hf g hg => (ih f hf g hg).symm
      rw [erase_alone, alone_of_off hoff]
    rw [erase_record, erase_record, erase_record,
      unify_record off (ascending_map_erase hf) (ascending_map_erase hg), hcombine,
      RecordOf.sorted_map]

variable {o off : Options}

/-- A tree without an outermost mark is `any` if it is so without its marks. -/
theorem Formed.erase_eq_any {named : String → String → Prop} {marks : Bool} {t : Tree}
    (h : Formed named marks false t) : t.erase = .any ↔ t = .any := by
  cases t with
  | optional x => exact absurd h.of_optional.1 (by simp)
  | _ => simp [erase]

theorem inferItems_erase (hoff : off.optionalFields = false) {items : List Value} {found : Tree}
    (ih : ∀ v ∈ items, infer off v = (infer o v).map erase)
    (hf : Formed NamedByKey true false found) :
    inferItems off found.erase items = (inferItems o found items).map erase := by
  induction items generalizing found with
  | nil =>
    rw [inferItems, inferItems]
    rfl
  | cons item rest ihrest =>
    rw [inferItems, inferItems, ih item (List.mem_cons_self ..)]
    cases hT : infer o item with
    | error fault => rfl
    | ok T =>
      have hform : Formed NamedByKey true false T :=
        formed_of_infer (fun _ => rfl) (fun _ _ => rfl) hT
      have hunify : Formed NamedByKey true false (unify o found T) := hf.unify (fun _ => rfl) hform
      simp only [Except.map]
      rw [(hf.unifies o hform).erase hoff]
      by_cases hany : unify o found T = .any
      · rw [if_pos hany, if_pos (hunify.erase_eq_any.2 hany)]
        simp [erase]
      · rw [if_neg hany, if_neg (mt hunify.erase_eq_any.1 hany)]
        exact ihrest (fun v hv => ih v (List.mem_cons_of_mem _ hv)) hunify

theorem inferFields_erase {entries : List (Value × Value)}
    (ih : ∀ e ∈ entries, infer off e.2 = (infer o e.2).map erase) :
    inferFields off entries =
      (inferFields o entries).map fun fs => fs.map (FieldOf.map erase) := by
  induction entries with
  | nil =>
    rw [inferFields, inferFields]
    rfl
  | cons entry rest ihrest =>
    obtain ⟨key, value⟩ := entry
    have hrest := ihrest fun e he => ih e (List.mem_cons_of_mem _ he)
    have hvalue := ih (key, value) (List.mem_cons_self ..)
    cases key with
    | text k =>
      simp only at hvalue
      rw [inferFields, inferFields, hvalue, hrest]
      cases infer o value with
      | error fault => rfl
      | ok T => cases inferFields o rest <;> rfl
    | _ =>
      simp only [inferFields]
      exact hrest

/-- Inference without marks finds the tree that inference with them finds, without its marks. -/
theorem infer_erase (o off : Options) (hoff : off.optionalFields = false)
    (hc : off.coerceNumericStrings = o.coerceNumericStrings) (v : Value) :
    infer off v = (infer o v).map erase := by
  have hundef : Formed NamedByKey true false .undefined := .leaf (by trivial) _
  have hitems : ∀ items : List Value, (∀ v ∈ items, infer off v = (infer o v).map erase) →
      (inferItems off .undefined items).map Tree.array =
        ((inferItems o .undefined items).map Tree.array).map erase := by
    intro items ih
    have h := inferItems_erase hoff ih hundef
    rw [erase_leaf (t := .undefined) trivial] at h
    rw [h]
    cases inferItems o .undefined items with
    | error fault => rfl
    | ok E => simp [Except.map]
  induction v using Value.induct with
  | int n =>
    rw [infer, infer]
    simp [Except.map, erase_leafTree (integerShape_isLeaf n)]
  | text s =>
    have htext : textShape off s = textShape o s := by rw [textShape, textShape, hc]
    rw [infer, infer, htext]
    cases hs : textShape o s with
    | error fault => rfl
    | ok x => simp [Except.map, erase_leafTree (isLeaf_of_textShape hs)]
  | list items ih =>
    rw [infer, infer]
    exact hitems items ih
  | tuple items ih =>
    rw [infer, infer]
    exact hitems items ih
  | object entries ih =>
    rw [infer_object, infer_object]
    split_ifs
    · rfl
    · split
      · rfl
      · rw [inferFields_erase ih]
        cases inferFields o entries with
        | error fault => rfl
        | ok fs => simp [Except.map, RecordOf.sorted_map]
  | _ =>
    rw [infer, infer]
    rfl

end Tree

/-! ## Sessions -/

/-- Marking optional fields only adds marks : over any tables, inference with marks returns exactly
where inference without them does, and the tree found is the unmarked one with marks added. Where
texts count as numbers the two may fail, and then with the same fault. -/
theorem Session.infer_marks_erase {s₁ s₂ : Session} (h₁ : s₁.Worked) (h₂ : s₂.Worked) (o : Options)
    (v : Value) :
    (∃ x s₁' y s₂', (Session.infer { o with optionalFields := true } v).run s₁ = (.ok x, s₁') ∧
      (Session.infer { o with optionalFields := false } v).run s₂ = (.ok y, s₂') ∧
      (s₁'.table.tree x).erase = s₂'.table.tree y) ∨
    ∃ fault s₁' s₂', o.coerceNumericStrings = true ∧
      (Session.infer { o with optionalFields := true } v).run s₁ = (.error fault, s₁') ∧
      (Session.infer { o with optionalFields := false } v).run s₂ = (.error fault, s₂') := by
  have hon := Session.infer_gives (Tree.inferred_unrestricted { o with optionalFields := true }) v
    h₁.sound
  have hoff := Session.infer_gives (Tree.inferred_unrestricted { o with optionalFields := false }) v
    h₂.sound
  have herase := Tree.infer_erase { o with optionalFields := true }
    { o with optionalFields := false } rfl rfl v
  cases hT : Tree.infer { o with optionalFields := true } v with
  | ok T =>
    rw [hT] at hon herase
    rw [herase] at hoff
    obtain ⟨x, s₁', hrun, -, -, rfl⟩ := hon
    obtain ⟨y, s₂', hrun', -, -, hy⟩ := hoff
    exact Or.inl ⟨x, s₁', y, s₂', hrun, hrun', hy.symm⟩
  | error fault =>
    rw [hT] at hon herase
    rw [herase] at hoff
    obtain ⟨s₁', hrun, -⟩ := hon
    obtain ⟨s₂', hrun', -⟩ := hoff
    exact Or.inr ⟨fault, s₁', s₂', (Tree.fault_of_infer hT).1, hrun, hrun'⟩

/-- Two objects, each with a key that the other lacks. -/
theorem Session.infer_marks_erase_two_objects :
    ∃ x s₁ y s₂,
      (Session.infer { optionalFields := true, coerceNumericStrings := false }
        (.list [.object [(.text "a", .int 1)], .object [(.text "b", .null)]])).run
          { table := { stem := "S" } } = (.ok x, s₁) ∧
      (Session.infer { optionalFields := false, coerceNumericStrings := false }
        (.list [.object [(.text "a", .int 1)], .object [(.text "b", .null)]])).run
          { table := { stem := "T" } } = (.ok y, s₂) ∧
      (s₁.table.tree x).erase = s₂.table.tree y := by
  rcases infer_marks_erase (.start "S") (.start "T") { coerceNumericStrings := false }
    (.list [.object [(.text "a", .int 1)], .object [(.text "b", .null)]]) with
    h | ⟨-, -, -, hc, -⟩
  · exact h
  · cases hc

end JsonShape
