import JsonShape.Proofs.Termination

/-!
# Calls repeated in a session

A call that returned once returns the same shape whenever it is repeated, and then adds nothing to
the table, whatever other calls came between. The reason is one for all of inference and
unification. Each record that the first run interned is still at its handle, so when the second run
comes to the same point it finds the record and does not store it again. From there on it has the
same shapes in hand as the first run.

`Session.Repeats` says this of an action and the session it first ran on. It passes from two actions
to their sequence, because the table that the first of them leaves only grows during the second
(`Repeats.bind`). So it is proved of looking up and interning a record, which makes it a logic of
actions (`Session.repeatsLogic`) and carries it through unification and inference. The depth that
unification allows grows with the table, which changes no result (`run_unifyWithin_of_le`).
-/

namespace JsonShape

namespace RecordTable

variable {t u : RecordTable}

theorem Grows.get?_eq (h : t.Grows u) {k : Int} (hk : (Shape.record k).Within t.size) :
    u.get? k = t.get? k := by
  obtain ⟨i, r, rfl, hr⟩ := exists_record hk
  obtain ⟨rest, hrest⟩ := h.records
  have hi := (List.getElem?_eq_some_iff.1 hr).1
  simp [get?, ← hrest, List.getElem?_append_left hi]

end RecordTable

namespace Session

/-! ## Repeating actions -/

/-- The action keeps the session sound. If it returns, it returns the same on every session whose
table extends the one it leaves, and leaves that table as it is. -/
structure Repeats {α : Type} (Q : RecordTable → α → Prop) (x : Action α) (s : Session) : Prop
    extends Keeps Sound Q x s where
  again : ∀ a, (x.run s).1 = .ok a → ∀ u : Session, u.Sound → (x.run s).2.table.Grows u.table →
    ∃ u', x.run u = (.ok a, u') ∧ u'.table = u.table

variable {s : Session} {o : Options}

section Repeats

variable {α β : Type} {Q : RecordTable → α → Prop} {R : RecordTable → β → Prop}

theorem Repeats.pure (hs : s.Sound) {a : α} (h : Q s.table a) : Repeats Q (Pure.pure a) s where
  toKeeps := Keeps.pure hs h
  again := fun _ hb u _ _ => ⟨u, Except.ok.inj hb ▸ rfl, rfl⟩

/-- An action that fails has nothing to repeat. -/
theorem Repeats.fail (hs : s.Sound) (fault : Fault) : Repeats Q (throw fault) s where
  toKeeps := Keeps.fail hs fault
  again := by
    rintro _ ⟨⟩

theorem Repeats.bind {x : Action α} {f : α → Action β} (h : Repeats Q x s)
    (hf : ∀ a s', s'.Sound → s.table.Grows s'.table → Q s'.table a → Repeats R (f a) s') :
    Repeats R (x >>= f) s where
  toKeeps := h.toKeeps.bind fun a s' hs' hgrows ha => (hf a s' hs' hgrows ha).toKeeps
  again := by
    intro b hb u hu hgrows
    rcases hx : x.run s with ⟨e | a, s'⟩
    · rw [run_bind_error hx] at hb
      cases hb
    · obtain ⟨hs', hgrows', hresult⟩ := h.toKeeps.of_run hx
      have hnext := hf a s' hs' hgrows' (hresult a rfl)
      rw [run_bind_ok hx] at hb hgrows
      -- The table after `x` is part of the one after `f a`, and so of `u`.
      obtain ⟨u₁, hrun, hu₁⟩ := h.again a (by rw [hx]) u hu
        (by rw [hx]; exact hnext.grows.trans hgrows)
      have hsound : u₁.Sound := by rwa [Sound, hu₁]
      obtain ⟨u₂, hrun', hu₂⟩ := hnext.again b hb u₁ hsound (hu₁ ▸ hgrows)
      exact ⟨u₂, (run_bind_ok hrun).trans hrun', hu₂.trans hu₁⟩

end Repeats

theorem record_repeats (hs : s.Sound) {h : Int} (hh : (Shape.record h).Within s.table.size) :
    Repeats FieldsWithin (record h) s where
  toKeeps := record_keepsSound h hs
  again := by
    obtain ⟨i, r, rfl, hr⟩ := RecordTable.exists_record hh
    have hget : s.table.get? i = some r := by simp [RecordTable.get?, hr]
    have hrun : ∀ u : Session, u.table.get? i = some r → (record i).run u = (.ok r, u) := by
      intro u hu
      rw [record, run_bind_ok (run_get u), hu]
      rfl
    intro q hq u _ hgrows
    rw [hrun s hget] at hq hgrows
    obtain rfl := Except.ok.inj hq
    exact ⟨u, hrun u ((hgrows.get?_eq hh).trans hget), rfl⟩

theorem intern_repeats (hs : s.Sound) {fields : List Field} (hf : FieldsWithin s.table fields) :
    Repeats (fun t y => y.Within t.size) (intern fields) s where
  toKeeps := intern_keepsSound hs hf
  again := by
    intro y hy u hu hgrows
    have hkept := (intern_keepsSound hs hf).good
    -- Once interned the record is in the dictionary, and it is found there later on.
    cases hl : s.table.lookup (RecordOf.sorted fields) with
    | some i =>
      rw [run_intern_stored hl] at hy hgrows
      obtain rfl := Except.ok.inj hy
      exact ⟨u, run_intern_stored (hu.indexed.lookup_of_grows hs.indexed hgrows hl), rfl⟩
    | none =>
      have hnew : (s.table.push (RecordOf.sorted fields)).lookup (RecordOf.sorted fields) =
          some s.table.size := by
        rw [RecordTable.lookup_push, if_pos rfl]
      rw [run_intern_new hl] at hy hgrows hkept
      obtain rfl := Except.ok.inj hy
      exact ⟨u, run_intern_stored (hu.indexed.lookup_of_grows hkept.indexed hgrows hnew), rfl⟩

/-- Actions over handles of the table repeat. -/
def repeatsLogic : ActionLogic where
  Good := Sound
  strictArguments := True
  strictFields := True
  strictFields_of_arguments := id
  Holds := fun Q x _ s => Repeats Q x s
  pure := fun hs h => Repeats.pure hs h
  fail := fun hs => Repeats.fail hs _
  bind := Repeats.bind
  record := by
    intro s h hs hh
    obtain ⟨hkeeps, hagain⟩ := record_repeats hs (hh trivial)
    exact ⟨hkeeps.imp fun _ _ _ hr _ => hr, hagain⟩
  intern := fun hs hf => intern_repeats hs (hf trivial)
  report := fun hs _ =>
    ⟨⟨hs, RecordTable.Grows.refl _, fun _ _ => trivial⟩, fun _ _ u _ _ => ⟨_, run_report _ u, rfl⟩⟩

theorem unifyDepth_mono {t u : RecordTable} (h : t.Grows u) (a b : Shape) :
    unifyDepth t a b ≤ unifyDepth u a b := by
  obtain ⟨rest, hrest⟩ := h.records
  have hweight : weight u a b = weight t a b + recordsWeight rest := by
    have hall : recordsWeight u.records = recordsWeight t.records + recordsWeight rest := by
      rw [← hrest, recordsWeight_append]
    have hu : weight u a b = a.size + b.size + recordsWeight u.records := rfl
    have ht : weight t a b = a.size + b.size + recordsWeight t.records := rfl
    omega
  unfold unifyDepth
  exact Nat.mul_le_mul (by omega) (by omega)

/-- Unification repeats, although it is allowed more depth on a larger table. -/
theorem unify_repeats (o : Options) : repeatsLogic.JoinHolds (unify o) (unify o) := by
  intro s a b hs ha hb
  have hkeeps := unify_keepsSound o a b hs
  refine ⟨hkeeps, fun c hc u hu hgrows => ?_⟩
  have hrun := run_unifyWithin_of_le hs (unifyDepth_mono (hkeeps.grows.trans hgrows) a b)
    ((unify_run o a b s).symm.trans (Prod.ext hc rfl))
  have hrepeats : Repeats (NamesKnown a b) (unifyWithin o (unifyDepth u.table a b) a b) s :=
    repeatsLogic.unifyWithin_holds o (Nat.le_refl _) a b hs ha hb
  obtain ⟨u', hrun', hu'⟩ := hrepeats.again c (by rw [hrun]) u hu (by rw [hrun]; exact hgrows)
  exact ⟨u', (unify_run o a b u).trans hrun', hu'⟩

theorem infer_repeats (o : Options) (v : Value) (hs : s.Sound) :
    Repeats (fun t c => c.Within t.size) (infer o v) s :=
  ActionLogic.infer_holds (unify_repeats o) v hs

/-! ## Calls in between -/

/-- Sessions that further calls lead to, each under options of its own. -/
inductive Continues (s : Session) : Session → Prop
  | refl : Continues s s
  | intern {u u' : Session} {fields : List Field} {r : Except Fault Shape} (h : Continues s u)
    (hf : ∀ f ∈ fields, ∀ k ∈ f.shape.handles, u.table.hasHandle k = true)
    (hrun : (Session.intern fields).run u = (r, u')) : Continues s u'
  | infer {u u' : Session} {o : Options} {v : Value} {r : Except Fault Shape} (h : Continues s u)
    (hrun : (Session.infer o v).run u = (r, u')) : Continues s u'
  | unify {u u' : Session} {o : Options} {a b : Shape} {r : Except Fault Shape}
    (h : Continues s u) (hrun : (Session.unify o a b).run u = (r, u')) : Continues s u'

theorem Continues.sound {u : Session} (h : s.Continues u) (hs : s.Sound) :
    u.Sound ∧ s.table.Grows u.table := by
  induction h with
  | refl => exact ⟨hs, RecordTable.Grows.refl _⟩
  | intern _ hf hrun ih =>
    obtain ⟨hgood, hgrows, -⟩ := (intern_keepsSound ih.1 fun f hf' k hk =>
      RecordTable.hasHandle_iff.1 (hf f hf' k hk)).of_run hrun
    exact ⟨hgood, ih.2.trans hgrows⟩
  | infer _ hrun ih =>
    obtain ⟨hgood, hgrows, -⟩ := (infer_keepsSound _ _ ih.1).of_run hrun
    exact ⟨hgood, ih.2.trans hgrows⟩
  | unify _ hrun ih =>
    obtain ⟨hgood, hgrows, -⟩ := (unify_keepsSound _ _ _ ih.1).of_run hrun
    exact ⟨hgood, ih.2.trans hgrows⟩

/-- What returned once returns the same after any further calls. -/
theorem Repeats.run_of_continues {α : Type} {Q : RecordTable → α → Prop} {x : Action α} {a : α}
    {s₁ s₂ : Session} (h : Repeats Q x s) (hrun : x.run s = (.ok a, s₁)) (hnext : s₁.Continues s₂) :
    ∃ s₃, x.run s₂ = (.ok a, s₃) ∧ s₃.table = s₂.table := by
  obtain ⟨hsound, hgrows⟩ := hnext.sound (h.toKeeps.of_run hrun).1
  exact h.again a (by rw [hrun]) s₂ hsound (by rw [hrun]; exact hgrows)

/-- Inference and unification are stable in a session : a call that returned a shape returns it
again after any further calls, and then leaves the table as it is. -/
theorem repeated_call_returns_same (h : s.Worked) (o : Options) :
    (∀ v t s₁ s₂, (infer o v).run s = (.ok t, s₁) → s₁.Continues s₂ →
      ∃ s₃, (infer o v).run s₂ = (.ok t, s₃) ∧ s₃.table = s₂.table) ∧
    ∀ a b t s₁ s₂, (∀ k ∈ a.handles, s.table.hasHandle k = true) →
      (∀ k ∈ b.handles, s.table.hasHandle k = true) →
      (unify o a b).run s = (.ok t, s₁) → s₁.Continues s₂ →
      ∃ s₃, (unify o a b).run s₂ = (.ok t, s₃) ∧ s₃.table = s₂.table := by
  refine ⟨fun v t s₁ s₂ hrun hnext => ?_, fun a b t s₁ s₂ ha hb hrun hnext => ?_⟩
  · exact (infer_repeats o v h.sound).run_of_continues hrun hnext
  · have hwa : a.Within s.table.size := fun k hk => RecordTable.hasHandle_iff.1 (ha k hk)
    have hwb : b.Within s.table.size := fun k hk => RecordTable.hasHandle_iff.1 (hb k hk)
    exact (unify_repeats o a b h.sound (fun _ => hwa) fun _ => hwb).run_of_continues hrun hnext

/-- Two records that differ in the shape of their only field. What they are unified to is not yet
there. -/
def differingField : Session :=
  [[⟨"A", "a", .int64⟩], [⟨"A", "a", .bool⟩]].foldl push { table := { stem := "S" } }

theorem worked_differingField : differingField.Worked := by
  have hfirst := (Worked.start "S").push (r := [⟨"A", "a", .int64⟩]) (by decide) rfl (by decide)
  exact hfirst.push (r := [⟨"A", "a", .bool⟩]) (by decide) rfl (by decide)

theorem repeated_call_returns_same_differingField :
    differingField.Worked ∧
      (∃ s₁ s₂ s₃, (infer {} (.list [.object [(.text "a", .int 1)],
          .object [(.text "a", .bool true)]])).run differingField =
          (.ok (.array (.record 2)), s₁) ∧
        (infer {} (.object [(.text "b", .null)])).run s₁ = (.ok (.record 3), s₂) ∧
        (infer {} (.list [.object [(.text "a", .int 1)],
          .object [(.text "a", .bool true)]])).run s₂ = (.ok (.array (.record 2)), s₃) ∧
        s₃.table = s₂.table) ∧
      ∃ s₁ s₂ s₃, (unify {} (.record 0) (.record 1)).run differingField = (.ok (.record 2), s₁) ∧
        (infer {} (.object [(.text "b", .null)])).run s₁ = (.ok (.record 3), s₂) ∧
        (unify {} (.record 0) (.record 1)).run s₂ = (.ok (.record 2), s₃) ∧
        s₃.table = s₂.table := by
  obtain ⟨hinfer, hunify⟩ := repeated_call_returns_same worked_differingField {}
  refine ⟨worked_differingField, ?_, ?_⟩
  · have hfirst := run_of_toOption (show ((infer {} (.list [.object [(.text "a", .int 1)],
        .object [(.text "a", .bool true)]])).run differingField).1.toOption =
          some (.array (.record 2)) by decide +kernel)
    have hbetween := run_of_toOption (show ((infer {} (.object [(.text "b", .null)])).run
        ((infer {} (.list [.object [(.text "a", .int 1)],
          .object [(.text "a", .bool true)]])).run differingField).2).1.toOption =
            some (.record 3) by decide +kernel)
    obtain ⟨s₃, hagain, htable⟩ := hinfer _ _ _ _ hfirst (Continues.refl.infer hbetween)
    exact ⟨_, _, s₃, hfirst, hbetween, hagain, htable⟩
  · have hfirst := run_of_toOption (show
        ((unify {} (.record 0) (.record 1)).run differingField).1.toOption =
          some (.record 2) by decide +kernel)
    have hbetween := run_of_toOption (show ((infer {} (.object [(.text "b", .null)])).run
        ((unify {} (.record 0) (.record 1)).run differingField).2).1.toOption =
          some (.record 3) by decide +kernel)
    obtain ⟨s₃, hagain, htable⟩ := hunify _ _ _ _ _ (by decide) (by decide) hfirst
      (Continues.refl.infer hbetween)
    exact ⟨_, _, s₃, hfirst, hbetween, hagain, htable⟩

end Session

end JsonShape
