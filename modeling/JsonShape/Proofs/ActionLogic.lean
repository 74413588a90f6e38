import JsonShape.Proofs.TreeInfer

/-!
# One walk through unification and inference

Unification and inference are put together from three actions on a session : a record is read, a
record is interned, an event is reported. What holds of these three and passes to sequences holds of
everything made of them. `Session.ActionLogic` is such a property with its rules, and the walk
through the recursion is made once, for all of them : `unifyWithin_holds` over merged records, the
rules for two shapes and the depth, `infer_holds` over values.

A logic speaks of two actions side by side. The walk takes both through the same steps, and they
part only where one of them uses up its depth. Most logics look at the first action alone; what
unification does if it is allowed more depth is said of both.

`Session.Keeps` is what most logics have in common. An action leads from good sessions to good ones
and adds to the table at its end, whether it returns or fails.
-/

namespace JsonShape

theorem RecordTable.hasHandle_iff {t : RecordTable} {h : Int} :
    t.hasHandle h = true ↔ 0 ≤ h ∧ h < t.size := by
  simp [hasHandle]

/-- The handle that an event announces, with the names of the record's fields. -/
def Event.handedOut? : Event → Option (Nat × List String)
  | .interned handle names => some (handle, names)
  | _ => none

/-- Events about keys announce no handle. -/
theorem handedOut?_of_keyProblem {seen : List (String × String)} {keys : List Value} {e : Event}
    (h : keyProblem seen keys = some e) : e.handedOut? = none := by
  fun_induction keyProblem seen keys with
  | case1 => cases h
  | case2 => rw [← Option.some.inj h]; rfl
  | case3 _ _ _ _ ih => exact ih h
  | case4 => rw [← Option.some.inj h]; rfl

namespace Session

variable {s : Session} {o : Options}

/-! ## Shapes over the table -/

/-- Every field of the record names handles of the table. -/
def FieldsWithin (t : RecordTable) (fields : Record) : Prop :=
  ∀ f ∈ fields, f.shape.Within t.size

section FieldsWithin

variable {t u : RecordTable} {fields : Record} {g : Field}

theorem FieldsWithin.grow (h : FieldsWithin t fields) (hg : t.Grows u) : FieldsWithin u fields :=
  fun f hf => hg.within (h f hf)

theorem FieldsWithin.append_alone (h : FieldsWithin t fields) (hg : g.shape.Within t.size) :
    FieldsWithin t (fields ++ [g.map (Shape.alone o)]) := by
  intro f hf
  rcases List.mem_append.1 hf with hf | hf
  · exact h f hf
  · rw [List.mem_singleton.1 hf]
    simpa [Shape.Within] using hg

theorem FieldsWithin.put (h : FieldsWithin t fields) (hg : g.shape.Within t.size) :
    FieldsWithin t (fields.put g) := by
  intro f hf
  rcases RecordOf.mem_put hf with rfl | hf
  · exact hg
  · exact h f hf

theorem FieldsWithin.markMissing (h : FieldsWithin t fields) (left right : Record) :
    FieldsWithin t (RecordOf.markMissing (Shape.alone o) left right fields) := by
  intro f hf
  obtain ⟨g, hg, rfl | rfl⟩ := RecordOf.mem_markMissing hf
  · exact h f hg
  · simpa [Shape.Within] using h g hg

end FieldsWithin

/-- The shape names handles of the table, or handles that one of two shapes names. -/
def NamesKnown (a b : Shape) (t : RecordTable) (c : Shape) : Prop :=
  ∀ h ∈ c.handles, h ∈ a.handles ∨ h ∈ b.handles ∨ t.hasHandle h = true

theorem NamesKnown.within {a b c : Shape} {t u : RecordTable} (h : NamesKnown a b u c)
    (hgrows : t.Grows u) (ha : a.Within t.size) (hb : b.Within t.size) : c.Within u.size := by
  intro k hk
  rcases h k hk with hk | hk | hk
  · exact hgrows.within ha k hk
  · exact hgrows.within hb k hk
  · exact RecordTable.hasHandle_iff.1 hk

theorem namesKnown_of_within {a b c : Shape} {t : RecordTable} (h : c.Within t.size) :
    NamesKnown a b t c :=
  fun k hk => .inr (.inr (RecordTable.hasHandle_iff.2 (h k hk)))

/-! ## Logics -/

/-- A property of runs that holds of the primitive actions and passes to sequences. -/
structure ActionLogic where
  /-- What holds of the session before and after each action. -/
  Good : Session → Prop
  /-- Only handles of the table may be asked for. -/
  strictArguments : Prop
  /-- Records mention handles of the table only. -/
  strictFields : Prop
  strictFields_of_arguments : strictArguments → strictFields
  /-- What is said of an action, and of a second one beside it, run on a session. A result of the
  first one has the property given. -/
  Holds : {α : Type} → (RecordTable → α → Prop) → Action α → Action α → Session → Prop
  pure : ∀ {α : Type} {Q : RecordTable → α → Prop} {s : Session} {a : α}, Good s → Q s.table a →
    Holds Q (Pure.pure a) (Pure.pure a) s
  fail : ∀ {α : Type} {Q : RecordTable → α → Prop} {s : Session} {fault : Fault} {y : Action α},
    Good s → Holds Q (throw fault) y s
  bind : ∀ {α β : Type} {Q : RecordTable → α → Prop} {R : RecordTable → β → Prop} {s : Session}
    {x y : Action α} {f g : α → Action β}, Holds Q x y s →
    (∀ a s', Good s' → s.table.Grows s'.table → Q s'.table a → Holds R (f a) (g a) s') →
    Holds R (x >>= f) (y >>= g) s
  record : ∀ {s : Session} {h : Int}, Good s →
    (strictArguments → (Shape.record h).Within s.table.size) →
    Holds (fun t r => strictFields → FieldsWithin t r) (Session.record h) (Session.record h) s
  intern : ∀ {s : Session} {fields : List Field}, Good s →
    (strictFields → FieldsWithin s.table fields) →
    Holds (fun t c => c.Within t.size) (Session.intern fields) (Session.intern fields) s
  report : ∀ {s : Session} {e : Event}, Good s → e.handedOut? = none →
    Holds (fun _ _ => True) (Session.report e) (Session.report e) s

namespace ActionLogic

variable (L : ActionLogic)

theorem imp {α : Type} {Q R : RecordTable → α → Prop} {x y : Action α} (h : L.Holds Q x y s)
    (himp : ∀ t a, s.table.Grows t → Q t a → R t a) : L.Holds R x y s := by
  have hbind : L.Holds R (x >>= Pure.pure) (y >>= Pure.pure) s :=
    L.bind h fun a s' hs' hgrows ha => L.pure hs' (himp _ a hgrows ha)
  rwa [bind_pure, bind_pure] at hbind

theorem reportAny {e : Event} (hs : L.Good s) (he : e.handedOut? = none) :
    L.Holds (fun t (c : Shape) => c.Within t.size) (do Session.report e; Pure.pure .any)
      (do Session.report e; Pure.pure .any) s :=
  L.bind (L.report hs he) fun _ _ hs' _ _ => L.pure hs' (Shape.within_of_handles_eq_nil rfl)

/-! ## Unification -/

/-- Combining two shapes has the property, and gives no handle but those of the table and of the
two. -/
def JoinHolds (join more : Shape → Shape → Action Shape) : Prop :=
  ∀ {s : Session} (a b : Shape), L.Good s → (L.strictArguments → a.Within s.table.size) →
    (L.strictArguments → b.Within s.table.size) →
    L.Holds (NamesKnown a b) (join a b) (more a b) s

section Unify

variable {L} {join more : Shape → Shape → Action Shape}

theorem mergeRight_holds (hjoin : L.JoinHolds join more) (hs : L.Good s) {merged right : Record}
    (hmerged : L.strictFields → FieldsWithin s.table merged)
    (hright : L.strictFields → FieldsWithin s.table right) :
    L.Holds (fun t r => L.strictFields → FieldsWithin t r)
      (RecordOf.mergeRight (Shape.alone o) join merged right)
      (RecordOf.mergeRight (Shape.alone o) more merged right) s := by
  induction right generalizing merged s with
  | nil => exact L.pure hs hmerged
  | cons g right ih =>
    have hg : L.strictFields → g.shape.Within s.table.size :=
      fun hstrict => (List.forall_mem_cons.1 (hright hstrict)).1
    have hrest : L.strictFields → FieldsWithin s.table right :=
      fun hstrict => (List.forall_mem_cons.1 (hright hstrict)).2
    rw [RecordOf.mergeRight, RecordOf.mergeRight]
    cases hfind : merged.find? g.name with
    | none =>
      exact ih hs (fun hstrict => (hmerged hstrict).append_alone (hg hstrict)) hrest
    | some f =>
      have hf : L.strictFields → f.shape.Within s.table.size :=
        fun hstrict => hmerged hstrict f (RecordOf.mem_of_find? hfind)
      have harguments := L.strictFields_of_arguments
      refine L.bind (hjoin _ _ hs (hf ∘ harguments) (hg ∘ harguments)) fun c s' hs' hgrows hc => ?_
      refine ih hs' (fun hstrict => ?_) fun hstrict => (hrest hstrict).grow hgrows
      exact ((hmerged hstrict).grow hgrows).put (hc.within hgrows (hf hstrict) (hg hstrict))

theorem mergeRecords_holds (hjoin : L.JoinHolds join more) (hs : L.Good s) {i j : Int}
    (hi : L.strictArguments → (Shape.record i).Within s.table.size)
    (hj : L.strictArguments → (Shape.record j).Within s.table.size) :
    L.Holds (fun t c => c.Within t.size) (mergeRecords o join i j) (mergeRecords o more i j) s := by
  refine L.bind (L.record hs hi) fun left s₁ h₁ hg₁ hleft => ?_
  refine L.bind (L.record h₁ fun hstrict => hg₁.within (hj hstrict))
    fun right s₂ h₂ hg₂ hright => ?_
  have hby : L.strictFields → FieldsWithin s₂.table left.byName :=
    fun hstrict f hf => hg₂.within (hleft hstrict f (RecordOf.mem_byName hf))
  have hmerge : L.Holds (fun t r => L.strictFields → FieldsWithin t r)
      (RecordOf.merge (Shape.alone o) join left right)
      (RecordOf.merge (Shape.alone o) more left right) s₂ :=
    L.bind (mergeRight_holds hjoin h₂ hby hright) fun _ _ h₃ _ hmerged =>
      L.pure h₃ fun hstrict => (hmerged hstrict).markMissing left right
  exact L.bind hmerge fun fields s₃ h₃ _ hfields => L.intern h₃ hfields

theorem unifyParts_holds (hjoin : L.JoinHolds join more) :
    L.JoinHolds (unifyParts o join) (unifyParts o more) := by
  intro s a b hs ha hb
  unfold unifyParts
  split
  · exact L.bind (hjoin _ _ hs ha hb) fun c s' hs' _ hc => L.pure hs' hc
  · -- What the two records mention does not matter : the merged record is interned.
    exact L.imp (mergeRecords_holds hjoin hs ha hb) fun _ _ _ hc => namesKnown_of_within hc
  · exact L.imp (L.reportAny hs rfl) fun _ _ _ hc => namesKnown_of_within hc

end Unify

end ActionLogic

/-- A step of unification settles the two shapes by themselves, sets their marks aside, or combines
their parts. Which of these it does, and what shape it settles on, does not depend on `join`. -/
theorem unifyStep_cases (o : Options) (a b : Shape) :
    (∃ c, (c = a ∨ c = b ∨ c.handles = []) ∧ ∀ join, unifyStep o join a b = pure c) ∨
      (∀ join, unifyStep o join a b =
        join a.dropOptional b.dropOptional >>= fun inner => pure inner.markOptional) ∨
      ∀ join, unifyStep o join a b = unifyParts o join a b := by
  by_cases hany : a = .any ∨ b = .any
  · exact .inl ⟨.any, .inr (.inr rfl), fun join => if_pos hany⟩
  by_cases heq : a = b
  · exact .inl ⟨a, .inl rfl, fun join => by rw [unifyStep, if_neg hany, if_pos heq]⟩
  by_cases hleft : a = .undefined
  · exact .inl ⟨b, .inr (.inl rfl), fun join => by
      rw [unifyStep, if_neg hany, if_neg heq, if_pos hleft]⟩
  by_cases hright : b = .undefined
  · exact .inl ⟨a, .inl rfl, fun join => by
      rw [unifyStep, if_neg hany, if_neg heq, if_neg hleft, if_pos hright]⟩
  by_cases hmark : (a.isOptional || b.isOptional) = true
  · exact .inr (.inl fun join => by
      rw [unifyStep, if_neg hany, if_neg heq, if_neg hleft, if_neg hright, if_pos hmark])
  by_cases hnumbers : (a.isNumeric && b.isNumeric) = true
  · exact .inl ⟨.float64, .inr (.inr rfl), fun join => by
      rw [unifyStep, if_neg hany, if_neg heq, if_neg hleft, if_neg hright, if_neg hmark,
        if_pos hnumbers]⟩
  by_cases htext : ((a.isNumeric && b == .string) || (a == .string && b.isNumeric)) = true
  · exact .inl ⟨.string, .inr (.inr rfl), fun join => by
      rw [unifyStep, if_neg hany, if_neg heq, if_neg hleft, if_neg hright, if_neg hmark,
        if_neg hnumbers, if_pos htext]⟩
  · exact .inr (.inr fun join => by
      rw [unifyStep, if_neg hany, if_neg heq, if_neg hleft, if_neg hright, if_neg hmark,
        if_neg hnumbers, if_neg htext])

theorem unify_run (o : Options) (a b : Shape) (s : Session) :
    (unify o a b).run s = (unifyWithin o (unifyDepth s.table a b) a b).run s :=
  run_bind_ok (run_get s)

namespace ActionLogic

variable {L : ActionLogic}

theorem unifyStep_holds {join more : Shape → Shape → Action Shape} (hjoin : L.JoinHolds join more) :
    L.JoinHolds (unifyStep o join) (unifyStep o more) := by
  intro s a b hs ha hb
  obtain ⟨c, hc, hstep⟩ | hstep | hstep := unifyStep_cases o a b
  · rw [hstep, hstep]
    refine L.pure hs fun k hk => ?_
    obtain rfl | rfl | hc := hc
    · exact .inl hk
    · exact .inr (.inl hk)
    · simp [hc] at hk
  · rw [hstep, hstep]
    have hinner := hjoin a.dropOptional b.dropOptional hs
      (fun hstrict => by simpa [Shape.Within] using ha hstrict)
      (fun hstrict => by simpa [Shape.Within] using hb hstrict)
    refine L.bind hinner fun c s' hs' _ hc => L.pure hs' ?_
    simpa [NamesKnown] using hc
  · rw [hstep, hstep]
    exact unifyParts_holds hjoin a b hs ha hb

/-- Unification to some depth, beside unification to a depth that is no smaller. -/
theorem unifyWithin_holds (L : ActionLogic) (o : Options) {depth larger : Nat}
    (hle : depth ≤ larger) : L.JoinHolds (unifyWithin o depth) (unifyWithin o larger) := by
  induction depth generalizing larger with
  | zero => exact fun _ _ hs _ _ => L.fail hs
  | succ depth ih =>
    obtain ⟨larger, rfl⟩ : ∃ n, larger = n + 1 := ⟨larger - 1, by omega⟩
    exact unifyStep_holds (ih (by omega))

/-! ## Inference -/

/-- Inference of the value has the property, and gives no handle but those of the table. -/
def InferHolds (L : ActionLogic) (o : Options) (v : Value) : Prop :=
  ∀ {s : Session}, L.Good s → L.Holds (fun t c => c.Within t.size) (infer o v) (infer o v) s

theorem leaf_holds (hs : L.Good s) {x : Shape} (hx : x.IsLeaf) :
    L.Holds (fun t c => c.Within t.size) (Pure.pure x) (Pure.pure x) s :=
  L.pure hs (Shape.within_of_handles_eq_nil hx.handles_eq_nil)

section Infer

variable (hunify : L.JoinHolds (unify o) (unify o))
include hunify

theorem inferItems_holds (count index : Nat) {items : List Value}
    (ih : ∀ v ∈ items, L.InferHolds o v) {found : Shape} (hs : L.Good s)
    (hfound : found.Within s.table.size) :
    L.Holds (fun t c => c.Within t.size) (inferItems o count index found items)
      (inferItems o count index found items) s := by
  induction items generalizing s index found with
  | nil =>
    rw [inferItems]
    exact L.pure hs hfound
  | cons item rest ihrest =>
    rw [inferItems]
    refine L.bind (ih item (List.mem_cons_self ..) hs) fun x s₁ h₁ hg₁ hx => ?_
    have hfound' := hg₁.within hfound
    refine L.bind (hunify found x h₁ (fun _ => hfound') fun _ => hx)
      fun element s₂ h₂ hg₂ helement => ?_
    split_ifs
    · exact L.reportAny h₂ rfl
    · exact ihrest _ (fun v hv => ih v (List.mem_cons_of_mem _ hv)) h₂
        (helement.within hg₂ hfound' hx)

theorem array_holds {items : List Value} (ih : ∀ v ∈ items, L.InferHolds o v) (hs : L.Good s) :
    L.Holds (fun t (c : Shape) => c.Within t.size)
      (inferItems o items.length 0 .undefined items >>= fun e => Pure.pure (.array e))
      (inferItems o items.length 0 .undefined items >>= fun e => Pure.pure (.array e)) s :=
  L.bind (inferItems_holds hunify _ _ ih hs (Shape.within_of_handles_eq_nil rfl))
    fun _ _ hs' _ he => L.pure hs' he

omit hunify in
theorem inferFields_holds {entries : List (Value × Value)}
    (ih : ∀ e ∈ entries, L.InferHolds o e.2) (hs : L.Good s) :
    L.Holds FieldsWithin (inferFields o entries) (inferFields o entries) s := by
  induction entries generalizing s with
  | nil =>
    rw [inferFields]
    exact L.pure hs fun _ hf => absurd hf List.not_mem_nil
  | cons entry rest ihrest =>
    obtain ⟨key, value⟩ := entry
    have hrest : ∀ e ∈ rest, L.InferHolds o e.2 := fun e he => ih e (List.mem_cons_of_mem _ he)
    cases key with
    | text k =>
      rw [inferFields]
      refine L.bind (ih _ (List.mem_cons_self ..) hs) fun x s₁ h₁ _ hx => ?_
      refine L.bind (ihrest hrest h₁) fun fields s₂ h₂ hg₂ hfields => L.pure h₂ fun f hf => ?_
      rcases List.mem_cons.1 hf with rfl | hf
      · exact hg₂.within hx
      · exact hfields f hf
    | _ =>
      simp only [inferFields]
      exact ihrest hrest hs

omit hunify in
theorem object_holds {entries : List (Value × Value)} (ih : ∀ e ∈ entries, L.InferHolds o e.2) :
    L.InferHolds o (.object entries) := by
  intro s hs
  rw [infer]
  split_ifs
  · exact leaf_holds hs trivial
  · split
    next problem hproblem => exact L.reportAny hs (handedOut?_of_keyProblem hproblem)
    next =>
      exact L.bind (inferFields_holds ih hs) fun fields s' hs' _ hfields =>
        L.intern hs' fun _ => hfields

theorem infer_holds (v : Value) : L.InferHolds o v := by
  induction v using Value.induct with
  | null =>
    intro s hs
    rw [infer]
    exact leaf_holds hs trivial
  | bool b =>
    intro s hs
    rw [infer]
    exact leaf_holds hs trivial
  | int n =>
    intro s hs
    rw [infer]
    exact leaf_holds hs (integerShape_isLeaf n)
  | decimal d =>
    intro s hs
    rw [infer]
    exact leaf_holds hs trivial
  | float x =>
    intro s hs
    rw [infer]
    exact leaf_holds hs trivial
  | text text =>
    intro s hs
    rw [infer]
    cases hx : textShape o text with
    | error fault => exact L.fail hs
    | ok x => exact leaf_holds hs (isLeaf_of_textShape hx)
  | list items ih =>
    intro s hs
    rw [infer]
    exact array_holds hunify ih hs
  | tuple items ih =>
    intro s hs
    rw [infer]
    exact array_holds hunify ih hs
  | object entries ih => exact object_holds ih
  | foreign f =>
    intro s hs
    rw [infer]
    exact L.reportAny hs rfl

end Infer

end ActionLogic

/-! ## Keeping sessions good -/

/-- The action leaves the session good and only adds to the table. A result, if there is one, has
the property. -/
structure Keeps (Good : Session → Prop) {α : Type} (Q : RecordTable → α → Prop) (x : Action α)
    (s : Session) : Prop where
  good : Good (x.run s).2
  grows : s.table.Grows (x.run s).2.table
  result : ∀ a, (x.run s).1 = .ok a → Q (x.run s).2.table a

section Keeps

variable {α β : Type} {Good : Session → Prop} {Q : RecordTable → α → Prop}
  {R : RecordTable → β → Prop}

theorem Keeps.pure (hs : Good s) {a : α} (h : Q s.table a) : Keeps Good Q (Pure.pure a) s where
  good := hs
  grows := RecordTable.Grows.refl _
  result := fun _ hb => Except.ok.inj hb ▸ h

theorem Keeps.fail (hs : Good s) (fault : Fault) : Keeps Good Q (throw fault) s where
  good := hs
  grows := RecordTable.Grows.refl _
  result := by
    rintro _ ⟨⟩

theorem Keeps.of_run {x : Action α} {s' : Session} {r : Except Fault α} (h : Keeps Good Q x s)
    (hrun : x.run s = (r, s')) :
    Good s' ∧ s.table.Grows s'.table ∧ ∀ a, r = .ok a → Q s'.table a := by
  obtain ⟨hgood, hgrows, hresult⟩ := h
  rw [hrun] at hgood hgrows hresult
  exact ⟨hgood, hgrows, hresult⟩

theorem Keeps.bind {x : Action α} {f : α → Action β} (h : Keeps Good Q x s)
    (hf : ∀ a s', Good s' → s.table.Grows s'.table → Q s'.table a → Keeps Good R (f a) s') :
    Keeps Good R (x >>= f) s := by
  rcases hx : x.run s with ⟨fault | a, s'⟩
  · obtain ⟨hgood, hgrows, -⟩ := h.of_run hx
    have hrun := run_bind_error (f := f) hx
    refine ⟨by rw [hrun]; exact hgood, by rw [hrun]; exact hgrows, fun b hb => ?_⟩
    rw [hrun] at hb
    cases hb
  · obtain ⟨hgood, hgrows, hresult⟩ := h.of_run hx
    obtain ⟨hgood', hgrows', hresult'⟩ := hf a s' hgood hgrows (hresult a rfl)
    have hrun := run_bind_ok (f := f) hx
    exact ⟨by rw [hrun]; exact hgood', by rw [hrun]; exact hgrows.trans hgrows',
      by rw [hrun]; exact hresult'⟩

theorem Keeps.imp {Q' : RecordTable → α → Prop} {x : Action α} (h : Keeps Good Q x s)
    (himp : ∀ t a, s.table.Grows t → Q t a → Q' t a) : Keeps Good Q' x s :=
  ⟨h.good, h.grows, fun a ha => himp _ a h.grows (h.result a ha)⟩

end Keeps

/-- What the primitive actions keep is kept by all of unification and inference. -/
def ActionLogic.keeping (Good : Session → Prop) (strict : Prop)
    (hrecord : ∀ {s : Session} (h : Int), Good s →
      Keeps Good (fun t r => strict → FieldsWithin t r) (Session.record h) s)
    (hintern : ∀ {s : Session} {fields : List Field}, Good s →
      (strict → FieldsWithin s.table fields) →
      Keeps Good (fun t c => c.Within t.size) (Session.intern fields) s)
    (hreport : ∀ {s : Session} {e : Event}, Good s → e.handedOut? = none →
      Keeps Good (fun _ _ => True) (Session.report e) s) : ActionLogic where
  Good := Good
  strictArguments := False
  strictFields := strict
  strictFields_of_arguments := False.elim
  Holds := fun Q x _ s => Keeps Good Q x s
  pure := fun hs h => Keeps.pure hs h
  fail := fun hs => Keeps.fail hs _
  bind := Keeps.bind
  record := fun hs _ => hrecord _ hs
  intern := hintern
  report := hreport

/-- Unification keeps what unification to every depth keeps. -/
theorem unify_keeps {Good : Session → Prop} {a b : Shape} {Q : RecordTable → Shape → Prop}
    (h : ∀ depth, Keeps Good Q (unifyWithin o depth a b) s) : Keeps Good Q (unify o a b) s := by
  obtain ⟨hgood, hgrows, hresult⟩ := h (unifyDepth s.table a b)
  rw [← unify_run] at hgood hgrows hresult
  exact ⟨hgood, hgrows, hresult⟩

end Session

end JsonShape
