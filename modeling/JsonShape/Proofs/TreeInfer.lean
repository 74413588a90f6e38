import JsonShape.Proofs.SessionTree
import JsonShape.Shape.Infer

/-!
# Inference of trees

`Tree.infer` is inference without a table : a value has a tree, or inference fails on it.
`Session.infer_gives` says that inference on a session finds the shape of that tree, or fails in
the same way, whatever the table holds already. The only failure is an integer literal with too
many digits, and only where texts count as numbers (`Tree.fault_of_infer`).
-/

namespace JsonShape

/-- Induction over a value, items and entries by membership; nothing is asked of keys. -/
@[elab_as_elim]
theorem Value.induct {motive : Value → Prop} (null : motive .null) (bool : ∀ b, motive (.bool b))
    (int : ∀ n, motive (.int n)) (decimal : ∀ d, motive (.decimal d))
    (float : ∀ x, motive (.float x)) (text : ∀ s, motive (.text s))
    (list : ∀ items : List Value, (∀ v ∈ items, motive v) → motive (.list items))
    (tuple : ∀ items : List Value, (∀ v ∈ items, motive v) → motive (.tuple items))
    (object : ∀ entries : List (Value × Value), (∀ e ∈ entries, motive e.2) →
      motive (.object entries))
    (foreign : ∀ f, motive (.foreign f)) : ∀ v, motive v
  | .null => null
  | .bool b => bool b
  | .int n => int n
  | .decimal d => decimal d
  | .float x => float x
  | .text s => text s
  | .list items => list items fun v _ =>
    induct null bool int decimal float text list tuple object foreign v
  | .tuple items => tuple items fun v _ =>
    induct null bool int decimal float text list tuple object foreign v
  | .object entries => object entries fun e _ =>
    induct null bool int decimal float text list tuple object foreign e.2
  | .foreign f => foreign f
termination_by v => sizeOf v
decreasing_by
  · have := List.sizeOf_lt_of_mem ‹_ ∈ items›
    simp_wf
    omega
  · have := List.sizeOf_lt_of_mem ‹_ ∈ items›
    simp_wf
    omega
  · have h1 := List.sizeOf_lt_of_mem ‹_ ∈ entries›
    have h2 : sizeOf e.2 < sizeOf e := by
      cases e
      simp only [Prod.mk.sizeOf_spec]
      omega
    simp_wf
    omega

/-- The tree of a shape that names no records. -/
def Shape.leafTree (s : Shape) : Tree :=
  s.unfold []

namespace Tree

open Classical in
mutual

/-- The tree of a value. -/
noncomputable def infer (o : Options) : Value → Except Fault Tree
  | .null => .ok .undefined
  | .bool _ => .ok .bool
  | .int n => .ok (integerShape n).leafTree
  | .decimal _ => .ok .float64
  | .float _ => .ok .float64
  | .text s => (textShape o s).map Shape.leafTree
  | .list items => (inferItems o .undefined items).map .array
  | .tuple items => (inferItems o .undefined items).map .array
  | .object entries =>
    if entries.isEmpty then .ok .undefined
    else
      match keyProblem [] (entries.map Prod.fst) with
      | some _ => .ok .any
      | none => (inferFields o entries).map fun fs => .record (RecordOf.sorted fs)
  | .foreign _ => .ok .any

/-- Unifies the trees of items into the tree found so far, until it is `any`. -/
noncomputable def inferItems (o : Options) (found : Tree) : List Value → Except Fault Tree
  | [] => .ok found
  | item :: rest =>
    match infer o item with
    | .error fault => .error fault
    | .ok t =>
      if unify o found t = .any then .ok .any else inferItems o (unify o found t) rest

/-- One field for each entry with a text key. -/
noncomputable def inferFields (o : Options) : List (Value × Value) →
    Except Fault (List (FieldOf Tree))
  | [] => .ok []
  | (key, value) :: rest =>
    match key with
    | .text k =>
      match infer o value with
      | .error fault => .error fault
      | .ok t => (inferFields o rest).map fun fs => ⟨identifierOf k, k, t⟩ :: fs
    | _ => inferFields o rest

end

end Tree

theorem Tree.infer_object (o : Options) (entries : List (Value × Value)) :
    infer o (.object entries) =
      if entries.isEmpty then .ok .undefined
      else
        match keyProblem [] (entries.map Prod.fst) with
        | some _ => .ok .any
        | none => (inferFields o entries).map fun fs => .record (RecordOf.sorted fs) := by
  rw [infer]

/-! ## Objects -/

/-- The identifier that a key becomes, if it is a text. -/
def Value.identifier? : Value → Option String
  | .text key => some (identifierOf key)
  | _ => none

/-- The keys can name the fields of a record : they are texts, and no two become one identifier. -/
structure Nameable (keys : List Value) : Prop where
  text : ∀ key ∈ keys, ∃ k, key = .text k
  nodup : (keys.map Value.identifier?).Nodup

theorem Nameable.perm {keys keys' : List Value} (h : Nameable keys) (hp : keys.Perm keys') :
    Nameable keys' where
  text := fun key hkey => h.text key (hp.mem_iff.2 hkey)
  nodup := (hp.map _).nodup_iff.1 h.nodup

theorem nameable_nil : Nameable [] :=
  ⟨by simp, List.nodup_nil⟩

theorem ne_nil_of_not_nameable {entries : List (Value × Value)}
    (h : ¬ Nameable (entries.map Prod.fst)) : entries ≠ [] := by
  rintro rfl
  exact h nameable_nil

theorem nameable_cons {k : String} {keys : List Value} :
    Nameable (.text k :: keys) ↔
      Nameable keys ∧ some (identifierOf k) ∉ keys.map Value.identifier? := by
  constructor
  · intro h
    have hnodup := List.nodup_cons.1 h.nodup
    exact ⟨⟨fun key hkey => h.text key (List.mem_cons_of_mem _ hkey), hnodup.2⟩, hnodup.1⟩
  · rintro ⟨h, hk⟩
    refine ⟨fun key hkey => ?_, List.nodup_cons.2 ⟨hk, h.nodup⟩⟩
    rcases List.mem_cons.1 hkey with rfl | hkey
    · exact ⟨k, rfl⟩
    · exact h.text key hkey

/-- No problem is found with keys that can name fields and become none of the identifiers seen. -/
theorem keyProblem_eq_none_iff_of_seen {seen : List (String × String)} {keys : List Value} :
    keyProblem seen keys = none ↔
      Nameable keys ∧ ∀ p ∈ seen, some p.1 ∉ keys.map Value.identifier? := by
  induction keys generalizing seen with
  | nil => simp [keyProblem, nameable_nil]
  | cons key rest ih =>
    cases key with
    | text k =>
      have hmem : ∀ n, some n ∈ (Value.text k :: rest).map Value.identifier? ↔
          n = identifierOf k ∨ some n ∈ rest.map Value.identifier? := by
        simp [Value.identifier?]
      rw [keyProblem, nameable_cons]
      simp only [hmem, not_or]
      cases hl : seen.lookup (identifierOf k) with
      | some first =>
        obtain ⟨l, l', rfl, -⟩ := List.lookup_eq_some_iff.1 hl
        simp only [reduceCtorEq, false_iff]
        rintro ⟨-, hseen⟩
        exact (hseen _ (List.mem_append_right _ (List.mem_cons_self ..))).1 rfl
      | none =>
        have hne : ∀ p ∈ seen, p.1 ≠ identifierOf k := by
          intro p hp he
          simpa [he] using List.lookup_eq_none_iff.1 hl p hp
        simp only [ih, List.forall_mem_cons]
        constructor
        · rintro ⟨h, hk, hseen⟩
          exact ⟨⟨h, hk⟩, fun p hp => ⟨hne p hp, hseen p hp⟩⟩
        · rintro ⟨⟨h, hk⟩, hseen⟩
          exact ⟨h, hk, fun p hp => (hseen p hp).2⟩
    | _ =>
      simp only [keyProblem, reduceCtorEq, false_iff]
      rintro ⟨h, -⟩
      obtain ⟨k, hk⟩ := h.text _ (List.mem_cons_self ..)
      cases hk

theorem keyProblem_eq_none_iff {keys : List Value} :
    keyProblem [] keys = none ↔ Nameable keys := by
  simp [keyProblem_eq_none_iff_of_seen]

/-- The items of an array. -/
def Value.items? : Value → Option (List Value)
  | .list items => some items
  | .tuple items => some items
  | _ => none

namespace Tree

theorem infer_items_eq_ok {o : Options} {v : Value} {items : List Value}
    (hv : v.items? = some items) {T : Tree} :
    infer o v = .ok T ↔ ∃ E, inferItems o .undefined items = .ok E ∧ T = .array E := by
  cases v with
  | list xs | tuple xs =>
    obtain rfl := Option.some.inj hv
    rw [infer, map_eq_ok_iff]
  | _ => cases hv

theorem infer_text_eq_ok {o : Options} {s : String} {T : Tree} :
    infer o (.text s) = .ok T ↔ ∃ x, textShape o s = .ok x ∧ T = x.leafTree := by
  rw [infer, map_eq_ok_iff]

/-- One item is taken into the tree found so far, and the rest after it unless that is `any`. -/
theorem inferItems_cons_eq_ok {o : Options} {found T : Tree} {item : Value} {rest : List Value} :
    inferItems o found (item :: rest) = .ok T ↔ ∃ t, infer o item = .ok t ∧
      ((unify o found t = .any ∧ T = .any) ∨
        (unify o found t ≠ .any ∧ inferItems o (unify o found t) rest = .ok T)) := by
  rw [inferItems]
  cases infer o item with
  | error fault => simp
  | ok t =>
    by_cases h : unify o found t = .any
    · simp [h, eq_comm]
    · simp [h]

theorem infer_object_nil (o : Options) : infer o (.object []) = .ok .undefined := by
  simp [infer_object]

theorem infer_object_of_not_nameable (o : Options) {entries : List (Value × Value)}
    (h : ¬ Nameable (entries.map Prod.fst)) : infer o (.object entries) = .ok .any := by
  have hne : entries.isEmpty = false := by simpa using ne_nil_of_not_nameable h
  rw [← keyProblem_eq_none_iff, ← ne_eq, Option.ne_none_iff_exists] at h
  obtain ⟨problem, hp⟩ := h
  simp [infer_object, hne, ← hp]

theorem infer_object_of_nameable (o : Options) {entries : List (Value × Value)}
    (hne : entries ≠ []) (h : Nameable (entries.map Prod.fst)) :
    infer o (.object entries) =
      (inferFields o entries).map fun fs => .record (RecordOf.sorted fs) := by
  have hne : entries.isEmpty = false := by simpa using hne
  simp [infer_object, hne, keyProblem_eq_none_iff.2 h]

/-- The field that an entry becomes. -/
structure IsField (o : Options) (entry : Value × Value) (f : FieldOf Tree) : Prop where
  key : entry.1 = .text f.key
  name : f.name = identifierOf f.key
  shape : infer o entry.2 = .ok f.shape

theorem IsField.identifier {o : Options} {entry : Value × Value} {f : FieldOf Tree}
    (h : IsField o entry f) : entry.1.identifier? = some f.name := by
  rw [h.key, Value.identifier?, h.name]

/-- Where all keys are texts, the fields are those of the entries, one by one. -/
theorem inferFields_eq_ok_iff {o : Options} {entries : List (Value × Value)}
    (h : ∀ key ∈ entries.map Prod.fst, ∃ k, key = .text k) {fs : List (FieldOf Tree)} :
    inferFields o entries = .ok fs ↔ List.Forall₂ (IsField o) entries fs := by
  induction entries generalizing fs with
  | nil => simp [inferFields, eq_comm]
  | cons entry rest ih =>
    obtain ⟨key, value⟩ := entry
    obtain ⟨k, rfl⟩ := h key (List.mem_cons_self ..)
    have htext : ∀ key ∈ rest.map Prod.fst, ∃ k, key = .text k :=
      fun key hkey => h key (List.mem_cons_of_mem _ hkey)
    rw [List.forall₂_cons_left_iff, inferFields]
    cases hT : infer o value with
    | error fault =>
      simp only [reduceCtorEq, false_iff]
      rintro ⟨f, -, hf, -⟩
      have := hf.shape
      rw [hT] at this
      cases this
    | ok T =>
      simp only
      constructor
      · intro hfs
        cases hrest : inferFields o rest with
        | error fault =>
          rw [hrest] at hfs
          cases hfs
        | ok gs =>
          rw [hrest] at hfs
          exact ⟨_, gs, ⟨rfl, rfl, hT⟩, (ih htext).1 hrest, (Except.ok.inj hfs).symm⟩
      · rintro ⟨⟨name, key, shape⟩, gs, ⟨hk, hn, hs⟩, hgs, rfl⟩
        simp only at hk hn hs
        cases hk
        rw [hT] at hs
        cases hs
        rw [(ih htext).2 hgs, hn]
        rfl

/-- What an object can become. -/
theorem infer_object_eq_ok {o : Options} {entries : List (Value × Value)} {T : Tree} :
    infer o (.object entries) = .ok T ↔
      (entries = [] ∧ T = .undefined) ∨
      (¬ Nameable (entries.map Prod.fst) ∧ T = .any) ∨
      (entries ≠ [] ∧ Nameable (entries.map Prod.fst) ∧
        ∃ fs, List.Forall₂ (IsField o) entries fs ∧ T = .record (RecordOf.sorted fs)) := by
  by_cases hne : entries = []
  · subst hne
    simp [infer_object_nil, nameable_nil, eq_comm]
  by_cases hkeys : Nameable (entries.map Prod.fst)
  · simp [infer_object_of_nameable o hne hkeys, map_eq_ok_iff, inferFields_eq_ok_iff hkeys.text,
      hne, hkeys]
  · simp [infer_object_of_not_nameable o hkeys, hne, hkeys, eq_comm]

end Tree

/-! ## Leaves -/

theorem Shape.IsLeaf.handles_eq_nil {x : Shape} (h : x.IsLeaf) : x.handles = [] := by
  cases x <;> first | rfl | exact h.elim

theorem RecordTable.tree_leaf (t : RecordTable) {x : Shape} (h : x.IsLeaf) :
    t.tree x = x.leafTree :=
  Shape.unfold_eq_of_prefix List.nil_prefix (Shape.within_of_handles_eq_nil h.handles_eq_nil)

theorem integerShape_isLeaf (n : Int) : (integerShape n).IsLeaf := by
  unfold integerShape
  split <;> trivial

theorem isLeaf_of_numberTextShape {s : String} {x : Shape}
    (h : numberTextShape s = .ok (some x)) : x.IsLeaf := by
  unfold numberTextShape at h
  split at h
  · simp at h
  · split_ifs at h
    · obtain rfl := Option.some.inj (Except.ok.inj h)
      exact integerShape_isLeaf _
    · obtain rfl := Option.some.inj (Except.ok.inj h)
      trivial

theorem isLeaf_of_textShape {o : Options} {s : String} {x : Shape} (h : textShape o s = .ok x) :
    x.IsLeaf := by
  unfold textShape at h
  split_ifs at h
  · split at h
    · simp at h
    · rename_i found hfound
      obtain rfl := Except.ok.inj h
      cases found with
      | none => trivial
      | some y => exact isLeaf_of_numberTextShape hfound
  · obtain rfl := Except.ok.inj h
    trivial

/-! ## Parts of a value -/

/-- A key of some object in the value. -/
inductive Value.HasKey (k : String) : Value → Prop
  | here {entries : List (Value × Value)} {v : Value} (h : (.text k, v) ∈ entries) :
    HasKey k (.object entries)
  | list {v : Value} {items : List Value} (hv : v ∈ items) (h : HasKey k v) :
    HasKey k (.list items)
  | tuple {v : Value} {items : List Value} (hv : v ∈ items) (h : HasKey k v) :
    HasKey k (.tuple items)
  | object {e : Value × Value} {entries : List (Value × Value)} (he : e ∈ entries)
    (h : HasKey k e.2) : HasKey k (.object entries)

theorem Value.hasKey_items_iff {k : String} {v : Value} {items : List Value}
    (hv : v.items? = some items) : v.HasKey k ↔ ∃ x ∈ items, x.HasKey k := by
  constructor
  · intro h
    cases h with
    | list hx h | tuple hx h =>
      obtain rfl := Option.some.inj hv
      exact ⟨_, hx, h⟩
    | _ => cases hv
  · rintro ⟨x, hx, h⟩
    cases v with
    | list xs =>
      obtain rfl := Option.some.inj hv
      exact .list hx h
    | tuple xs =>
      obtain rfl := Option.some.inj hv
      exact .tuple hx h
    | _ => cases hv

/-- A value is a part of another one. -/
inductive Value.Part : Value → Value → Prop
  | refl (v : Value) : Part v v
  | list {w v : Value} {items : List Value} (hv : v ∈ items) (h : Part w v) :
    Part w (.list items)
  | tuple {w v : Value} {items : List Value} (hv : v ∈ items) (h : Part w v) :
    Part w (.tuple items)
  | object {w : Value} {e : Value × Value} {entries : List (Value × Value)} (he : e ∈ entries)
    (h : Part w e.2) : Part w (.object entries)

/-! ## Faults -/

theorem fault_of_numberTextShape {s : String} {fault : Fault}
    (h : numberTextShape s = .error fault) :
    ∃ digits, maxIntegerDigits < digits ∧ fault = .integerTooLong digits := by
  unfold numberTextShape at h
  split at h
  · cases h
  · split_ifs at h with hint hlong
    exact ⟨_, hlong, (Except.error.inj h).symm⟩

theorem fault_of_textShape {o : Options} {s : String} {fault : Fault}
    (h : textShape o s = .error fault) :
    o.coerceNumericStrings = true ∧ numberTextShape s = .error fault := by
  unfold textShape at h
  split_ifs at h with hc
  refine ⟨hc, ?_⟩
  split at h
  · rename_i hs
    rw [hs, Except.error.inj h]
  · cases h

namespace Tree

theorem fault_of_inferItems {o : Options} {items : List Value} {found : Tree} {fault : Fault}
    (h : inferItems o found items = .error fault) : ∃ v ∈ items, infer o v = .error fault := by
  induction items generalizing found with
  | nil => simp [inferItems] at h
  | cons item rest ih =>
    rw [inferItems] at h
    cases hT : infer o item with
    | error fault' =>
      rw [hT] at h
      exact ⟨item, List.mem_cons_self .., hT.trans h⟩
    | ok T =>
      rw [hT] at h
      simp only at h
      split_ifs at h
      obtain ⟨v, hv, hfault⟩ := ih h
      exact ⟨v, List.mem_cons_of_mem _ hv, hfault⟩

theorem fault_of_inferFields {o : Options} {entries : List (Value × Value)} {fault : Fault}
    (h : inferFields o entries = .error fault) : ∃ e ∈ entries, infer o e.2 = .error fault := by
  induction entries with
  | nil => simp [inferFields] at h
  | cons entry rest ih =>
    have hrest : inferFields o rest = .error fault →
        ∃ e ∈ entry :: rest, infer o e.2 = .error fault :=
      fun h => (ih h).imp fun e he => ⟨List.mem_cons_of_mem _ he.1, he.2⟩
    obtain ⟨key, value⟩ := entry
    cases key with
    | text k =>
      rw [inferFields] at h
      cases hT : infer o value with
      | error fault' =>
        rw [hT] at h
        cases h
        exact ⟨_, List.mem_cons_self .., hT⟩
      | ok T =>
        rw [hT] at h
        exact hrest (error_of_map h)
    | _ =>
      simp only [inferFields] at h
      exact hrest h

/-- Inference fails only on an integer literal in a text that is too long. -/
theorem fault_of_infer {o : Options} {v : Value} {fault : Fault} (h : infer o v = .error fault) :
    o.coerceNumericStrings = true ∧
      ∃ s, Value.Part (.text s) v ∧ numberTextShape s = .error fault := by
  induction v using Value.induct with
  | text s =>
    rw [infer] at h
    obtain ⟨hc, hs⟩ := fault_of_textShape (error_of_map h)
    exact ⟨hc, s, .refl _, hs⟩
  | list items ih =>
    rw [infer] at h
    obtain ⟨v, hv, hfault⟩ := fault_of_inferItems (error_of_map h)
    obtain ⟨hc, s, hpart, hs⟩ := ih v hv hfault
    exact ⟨hc, s, .list hv hpart, hs⟩
  | tuple items ih =>
    rw [infer] at h
    obtain ⟨v, hv, hfault⟩ := fault_of_inferItems (error_of_map h)
    obtain ⟨hc, s, hpart, hs⟩ := ih v hv hfault
    exact ⟨hc, s, .tuple hv hpart, hs⟩
  | object entries ih =>
    rw [infer_object] at h
    split_ifs at h
    split at h
    · cases h
    · obtain ⟨e, he, hfault⟩ := fault_of_inferFields (error_of_map h)
      obtain ⟨hc, s, hpart, hs⟩ := ih e he hfault
      exact ⟨hc, s, .object he hpart, hs⟩
  | _ =>
    rw [infer] at h
    cases h

/-- A fault of inference names a number of digits. -/
theorem exists_digits_of_infer {o : Options} {v : Value} {fault : Fault}
    (h : infer o v = .error fault) : ∃ digits, fault = .integerTooLong digits := by
  obtain ⟨-, s, -, hs⟩ := fault_of_infer h
  obtain ⟨digits, -, rfl⟩ := fault_of_numberTextShape hs
  exact ⟨digits, rfl⟩

end Tree

/-! ## Inference on a session -/

/-- A property that unification keeps and that every inferred tree has. -/
structure Tree.Inferred (o : Options) (P : Tree → Prop) : Prop extends Tree.Kept o P where
  infer : ∀ {v : Value} {T : Tree}, Tree.infer o v = .ok T → P T

namespace Session

/-- On every sound table inference of the value gives what inference of its tree does. -/
def Agrees (P : Tree → Prop) (o : Options) (v : Value) : Prop :=
  ∀ {s : Session}, s.table.Sound P →
    Gives P (RecordTable.Reads P) (infer o v) s (Tree.infer o v)

variable {P : Tree → Prop} {o : Options} {s : Session}

theorem leaf_gives (hP : Tree.Inferred o P) (hs : s.table.Sound P) {x : Shape} {v : Value}
    (hx : x.IsLeaf) (hv : Tree.infer o v = .ok x.leafTree) :
    Gives P (RecordTable.Reads P) (pure x) s (Tree.infer o v) := by
  have htree := s.table.tree_leaf hx
  rw [hv]
  exact Gives.pure hs
    ⟨⟨Shape.within_of_handles_eq_nil hx.handles_eq_nil, htree.symm ▸ hP.infer hv⟩, htree⟩

theorem inferItems_gives (hP : Tree.Inferred o P) (count index : Nat) {items : List Value}
    (ih : ∀ v ∈ items, Agrees P o v) :
    ∀ {s : Session} {found : Shape}, s.table.Sound P → s.table.Knows P found →
      Gives P (RecordTable.Reads P) (inferItems o count index found items) s
        (Tree.inferItems o (s.table.tree found) items) := by
  induction items generalizing index with
  | nil =>
    intro s found hs hf
    rw [inferItems, Tree.inferItems]
    exact Gives.pure hs ⟨hf, rfl⟩
  | cons item rest ihrest =>
    intro s found hs hf
    rw [inferItems, Tree.inferItems]
    have hitem := ih item (List.mem_cons_self ..) hs
    cases hT : Tree.infer o item with
    | error fault =>
      rw [hT] at hitem
      exact hitem.bind_error
    | ok T =>
      rw [hT] at hitem
      refine hitem.bind fun x s₁ h₁ hx => ?_
      obtain ⟨hk, rfl⟩ := hx
      have hf₁ := hf.grow h₁.grows
      refine (unify_gives hP.toKept h₁.sound hf₁ hk).bind fun e s₂ h₂ he => ?_
      rw [h₁.grows.tree_eq hf.within] at he
      obtain ⟨hke, he⟩ := he
      have hany : s₂.table.tree e = .any ↔ e = .any :=
        RecordTable.tree_eq_leaf_iff (l := .any) h₂.sound.grounded hke.within trivial
      simp only
      rw [← he]
      by_cases h : e = .any
      · rw [if_pos h, if_pos (hany.2 h)]
        refine Gives.report h₂.sound fun s₃ h₃ => ?_
        have hsound : s₃.table.Sound P := h₃.symm ▸ h₂.sound
        refine Gives.pure hsound ⟨⟨Shape.within_of_handles_eq_nil rfl, ?_⟩, rfl⟩
        show P .any
        rw [← hany.2 h]
        exact hke.holds
      · rw [if_neg h, if_neg (mt hany.1 h)]
        exact ihrest _ (fun v hv => ih v (List.mem_cons_of_mem _ hv)) h₂.sound hke

theorem inferFields_gives {entries : List (Value × Value)} (ih : ∀ e ∈ entries, Agrees P o e.2) :
    ∀ {s : Session}, s.table.Sound P →
      Gives P (RecordTable.ReadsFields P) (inferFields o entries) s
        (Tree.inferFields o entries) := by
  induction entries with
  | nil =>
    intro s hs
    rw [inferFields, Tree.inferFields]
    exact Gives.pure hs ⟨by simp, rfl⟩
  | cons entry rest ihrest =>
    intro s hs
    obtain ⟨key, value⟩ := entry
    have hvalue := ih (key, value) (List.mem_cons_self ..) hs
    have hrest : ∀ {s : Session}, s.table.Sound P → _ :=
      ihrest fun e he => ih e (List.mem_cons_of_mem _ he)
    cases key with
    | text k =>
      rw [inferFields, Tree.inferFields]
      simp only at hvalue ⊢
      cases hT : Tree.infer o value with
      | error fault =>
        rw [hT] at hvalue
        exact hvalue.bind_error
      | ok T =>
        rw [hT] at hvalue
        refine hvalue.bind fun x s₁ h₁ hx => ?_
        have hfields := hrest h₁.sound
        cases hTs : Tree.inferFields o rest with
        | error fault =>
          rw [hTs] at hfields
          exact hfields.bind_error
        | ok Ts =>
          rw [hTs] at hfields
          refine hfields.bind fun fs s₂ h₂ hfs => ?_
          obtain ⟨hk, rfl⟩ := hx.grow h₂.grows
          obtain ⟨hks, rfl⟩ := hfs
          refine Gives.pure h₂.sound ⟨fun f hf => ?_, rfl⟩
          rcases List.mem_cons.1 hf with rfl | hf
          · exact hk
          · exact hks f hf
    | _ =>
      simp only [inferFields, Tree.inferFields]
      exact hrest hs

theorem array_gives (hP : Tree.Inferred o P) (hs : s.table.Sound P) {v : Value}
    {items : List Value} (ih : ∀ v ∈ items, Agrees P o v)
    (hv : Tree.infer o v = (Tree.inferItems o .undefined items).map .array) :
    Gives P (RecordTable.Reads P)
      (inferItems o items.length 0 .undefined items >>= fun e => pure (.array e)) s
      (Tree.infer o v) := by
  have hundef : s.table.Knows P .undefined :=
    ⟨Shape.within_of_handles_eq_nil rfl, hP.infer (v := .null) (by rw [Tree.infer]; rfl)⟩
  have hitems := inferItems_gives hP items.length 0 ih hs hundef
  rw [RecordTable.tree_undefined] at hitems
  rw [hv]
  cases hT : Tree.inferItems o .undefined items with
  | error fault =>
    rw [hT] at hitems
    exact hitems.bind_error
  | ok T =>
    rw [hT] at hitems hv
    refine hitems.bind fun e s₁ h₁ he => ?_
    obtain ⟨hk, rfl⟩ := he
    exact Gives.pure h₁.sound ⟨⟨hk.within, hP.infer hv⟩, rfl⟩

theorem object_gives (hP : Tree.Inferred o P) (hs : s.table.Sound P)
    {entries : List (Value × Value)} (ih : ∀ e ∈ entries, Agrees P o e.2) :
    Gives P (RecordTable.Reads P) (infer o (.object entries)) s
      (Tree.infer o (.object entries)) := by
  have hv := Tree.infer_object o entries
  rw [infer]
  by_cases hempty : entries.isEmpty = true
  · rw [if_pos hempty] at hv ⊢
    exact leaf_gives hP (x := .undefined) hs trivial hv
  rw [if_neg hempty] at hv ⊢
  cases hkeys : keyProblem [] (entries.map Prod.fst) with
  | some problem =>
    rw [hkeys] at hv
    refine Gives.report hs fun s' hs' => ?_
    exact leaf_gives hP (x := .any) (hs' ▸ hs) trivial hv
  | none =>
    rw [hkeys] at hv
    rw [hv]
    have hfields := inferFields_gives ih hs
    cases hTs : Tree.inferFields o entries with
    | error fault =>
      rw [hTs] at hfields
      exact hfields.bind_error
    | ok Ts =>
      rw [hTs] at hfields hv
      exact hfields.bind fun fs s₁ h₁ hfs => intern_gives h₁.sound hfs (hP.infer hv)

/-- Inference finds the shape of the tree, or fails as inference of trees does. -/
theorem infer_gives (hP : Tree.Inferred o P) (v : Value) : Agrees P o v := by
  induction v using Value.induct with
  | null =>
    intro s hs
    rw [infer]
    exact leaf_gives hP (x := .undefined) hs trivial (by rw [Tree.infer]; rfl)
  | bool b =>
    intro s hs
    rw [infer]
    exact leaf_gives hP (x := .bool) hs trivial (by rw [Tree.infer]; rfl)
  | int n =>
    intro s hs
    rw [infer]
    exact leaf_gives hP hs (integerShape_isLeaf n) (by rw [Tree.infer])
  | decimal d =>
    intro s hs
    rw [infer]
    exact leaf_gives hP (x := .float64) hs trivial (by rw [Tree.infer]; rfl)
  | float x =>
    intro s hs
    rw [infer]
    exact leaf_gives hP (x := .float64) hs trivial (by rw [Tree.infer]; rfl)
  | text text =>
    intro s hs
    rw [infer]
    cases hx : textShape o text with
    | error fault =>
      rw [Tree.infer, hx]
      exact ⟨s, rfl, Advances.refl hs⟩
    | ok x => exact leaf_gives hP hs (isLeaf_of_textShape hx) (by rw [Tree.infer, hx]; rfl)
  | list items ih =>
    intro s hs
    rw [infer]
    exact array_gives hP hs ih (by rw [Tree.infer])
  | tuple items ih =>
    intro s hs
    rw [infer]
    exact array_gives hP hs ih (by rw [Tree.infer])
  | object entries ih =>
    intro s hs
    exact object_gives hP hs ih
  | foreign f =>
    intro s hs
    rw [infer]
    refine Gives.report hs fun s' hs' => ?_
    exact leaf_gives hP (x := .any) (hs' ▸ hs) trivial (by rw [Tree.infer]; rfl)

end Session

end JsonShape
