import JsonShape.Proofs.Stability

/-!
# Handles of the record table

A table keeps its records twice, in a list by handle and in a dictionary by record. Handles and
records determine each other as long as the two copies are inverse to each other
(`RecordTable.Indexed`). Here this is said of sessions after any calls of interning, inference and
unification (`Session.after`), some of which may have failed. Fields may be interned in any order,
with repeated names, and over handles that stand for nothing or lead in a circle, so nothing is
known of what the records mention.

Handles are handed out by interning alone, and every new one is announced by an event. The event log
is thus a third copy of what the table holds, and `Session.Orderly` says that all three agree. An
action leads from orderly sessions to orderly ones (`Session.orderlyLogic`) : this is proved of
reading and interning a record and carried through the recursion of unification and inference. The
laws of `Session.HandleLaws` then hold after all calls (`Session.handleLaws_after`).
-/

namespace JsonShape

theorem Shape.within_natCast {n i : Nat} : (Shape.record i).Within n ↔ i < n := by
  simp

namespace RecordTable

theorem get?_natCast (t : RecordTable) (i : Nat) : t.get? i = t.records[i]? := by
  simp [get?]

end RecordTable

namespace Session

/-- The handles announced so far, in order. -/
def handedOut (s : Session) : List (Nat × List String) :=
  s.events.filterMap Event.handedOut?

/-- The dictionary is the inverse of the list. The handles announced are those of the records from
the first to the last, each with the names of its record's fields. -/
structure Orderly (s : Session) : Prop where
  indexed : s.table.Indexed
  handedOut : s.handedOut = s.table.records.mapIdx fun handle r => (handle, RecordOf.names r)

variable {s : Session} {o : Options}

theorem orderly_start (stem : String) : Orderly { table := { stem := stem } } :=
  ⟨RecordTable.indexed_start stem, rfl⟩

/-! ## What calls keep -/

theorem report_keepsOrder (hs : s.Orderly) {e : Event} (he : e.handedOut? = none) :
    Keeps Orderly (fun _ _ => True) (report e) s where
  good := by
    refine ⟨hs.indexed, ?_⟩
    rw [run_report]
    simpa [Session.handedOut, he] using hs.handedOut
  grows := RecordTable.Grows.refl _
  result := fun _ _ => trivial

theorem record_keepsOrder (h : Int) (hs : s.Orderly) :
    Keeps Orderly (fun _ _ => True) (record h) s := by
  have hsame : ((record h).run s).2 = s := by rw [run_record]
  exact ⟨by rw [hsame]; exact hs, by rw [hsame]; exact RecordTable.Grows.refl _,
    fun _ _ => trivial⟩

/-- A record that is new is announced with the next handle. -/
theorem Orderly.push (hs : s.Orderly) {r : Record} (hr : s.table.lookup r = none) :
    (s.push r).Orderly where
  indexed := hs.indexed.push hr
  handedOut := by
    have hold := hs.handedOut
    simp only [Session.handedOut, Session.push] at hold ⊢
    rw [List.filterMap_append, hold, RecordTable.push, List.mapIdx_concat]
    rfl

theorem intern_keepsOrder (hs : s.Orderly) (fields : List Field) :
    Keeps Orderly (fun t c => c.Within t.size) (intern fields) s := by
  cases hlookup : s.table.lookup (RecordOf.sorted fields) with
  | some handle =>
    have hrun := run_intern_stored hlookup
    refine ⟨by rw [hrun]; exact hs, by rw [hrun]; exact RecordTable.Grows.refl _, ?_⟩
    rw [hrun]
    rintro _ ⟨⟩
    have hlt := (List.getElem?_eq_some_iff.1 ((hs.indexed _ _).1 hlookup)).1
    exact Shape.within_natCast.2 hlt
  | none =>
    have hrun := run_intern_new hlookup
    refine ⟨by rw [hrun]; exact hs.push hlookup, by rw [hrun]; exact RecordTable.grows_push _ _, ?_⟩
    rw [hrun]
    rintro _ ⟨⟩
    rw [Shape.within_natCast, push_table, RecordTable.size_push]
    exact Nat.lt_succ_self _

/-- Orderly sessions stay orderly, whatever handles are asked for or mentioned. -/
def orderlyLogic : ActionLogic :=
  .keeping Orderly False (fun h hs => (record_keepsOrder h hs).imp fun _ _ _ _ => False.elim)
    (fun hs _ => intern_keepsOrder hs _) fun hs he => report_keepsOrder hs he

theorem unify_keepsOrder (o : Options) (a b : Shape) (hs : s.Orderly) :
    Keeps Orderly (NamesKnown a b) (unify o a b) s :=
  unify_keeps fun depth =>
    orderlyLogic.unifyWithin_holds o (Nat.le_refl depth) a b hs False.elim False.elim

theorem infer_keepsOrder (o : Options) (v : Value) (hs : s.Orderly) :
    Keeps Orderly (fun t c => c.Within t.size) (infer o v) s :=
  ActionLogic.infer_holds (L := orderlyLogic) (fun a b hs _ _ => unify_keepsOrder o a b hs) v hs

/-- Interning gives the handle that the record has, with the session left as it is, or the next
handle. All other records keep what they have. -/
theorem intern_returns (fields : List Field) (s : Session) :
    ∃ (handle : Nat) (s' : Session), (intern fields).run s = (.ok (.record handle), s') ∧
      s'.table.lookup (RecordOf.sorted fields) = some handle ∧
      (s' = s ∨ handle = s.table.size ∧ s'.table.size = s.table.size + 1 ∧
        s'.table.lookup =
          Function.update s.table.lookup (RecordOf.sorted fields) (some handle)) := by
  cases hlookup : s.table.lookup (RecordOf.sorted fields) with
  | some handle => exact ⟨handle, s, run_intern_stored hlookup, hlookup, .inl rfl⟩
  | none =>
    have hupdate : (s.table.push (RecordOf.sorted fields)).lookup =
        Function.update s.table.lookup (RecordOf.sorted fields) (some s.table.size) := by
      funext q
      rw [RecordTable.lookup_push, Function.update_apply]
    refine ⟨_, _, run_intern_new hlookup, ?_, .inr ⟨rfl, RecordTable.size_push _ _, hupdate⟩⟩
    rw [push_table, hupdate, Function.update_self]

/-! ## Any calls -/

/-- A call on a session. -/
inductive Call where
  | intern (fields : List Field)
  | infer (o : Options) (v : Value)
  | unify (o : Options) (a b : Shape)

/-- What the call does. -/
def Call.action : Call → Action Shape
  | .intern fields => Session.intern fields
  | .infer o v => Session.infer o v
  | .unify o a b => Session.unify o a b

/-- The handles in the shapes that the caller passes to be combined. -/
def Call.handles : Call → List Int
  | .unify _ a b => a.handles ++ b.handles
  | _ => []

/-- The session after calls, one after the other. A call that fails may leave records behind. -/
def after (s : Session) (calls : List Call) : Session :=
  calls.foldl (fun s call => (call.action.run s).2) s

theorem call_keepsOrder (hs : s.Orderly) (call : Call) :
    Keeps Orderly (fun t c => ∀ h ∈ c.handles, h ∈ call.handles ∨ t.hasHandle h = true)
      call.action s := by
  cases call with
  | intern fields =>
    exact (intern_keepsOrder hs fields).imp fun _ _ _ hc h hh =>
      .inr (RecordTable.hasHandle_iff.2 (hc h hh))
  | infer o v =>
    exact (infer_keepsOrder o v hs).imp fun _ _ _ hc h hh =>
      .inr (RecordTable.hasHandle_iff.2 (hc h hh))
  | unify o a b =>
    refine (unify_keepsOrder o a b hs).imp fun _ _ _ hc h hh => ?_
    simpa [Call.handles, or_assoc] using hc h hh

theorem Orderly.after (hs : s.Orderly) (calls : List Call) :
    (s.after calls).Orderly ∧ s.table.Grows (s.after calls).table := by
  induction calls generalizing s with
  | nil => exact ⟨hs, RecordTable.Grows.refl _⟩
  | cons call calls ih =>
    have hcall := call_keepsOrder hs call
    obtain ⟨horderly, hgrows⟩ := ih hcall.good
    exact ⟨horderly, hcall.grows.trans hgrows⟩

/-- Handles and records of a session determine each other, once and for all. -/
structure HandleLaws (s : Session) : Prop where
  /-- Handles are handed out from 0 on, one after the other, and each is announced with the names
  of its record's fields. -/
  inOrder : s.handedOut = s.table.records.mapIdx fun handle r => (handle, RecordOf.names r)
  /-- A call gives no handle but those that were handed out and those that were passed to it. -/
  given : ∀ (call : Call) (shape : Shape) (s' : Session), call.action.run s = (.ok shape, s') →
    ∀ h ∈ shape.handles, h ∈ call.handles ∨ s'.table.hasHandle h = true
  /-- No two stored records are equal. -/
  distinct : s.table.records.Nodup
  /-- A handle stands for a record, which has this handle, and it stands for the same record after
  any further calls. -/
  stored : ∀ handle < s.table.size, ∃ r, s.table.get? handle = some r ∧
    s.table.lookup r = some handle ∧ ∀ more, (s.after more).table.get? handle = some r
  /-- The dictionary has a handle for a record exactly if the record is stored there, and none
  exactly if it is not stored. -/
  inverse : ∀ (r : Record) (handle : Nat),
    s.table.lookup r = some handle ↔ s.table.get? handle = some r
  absent : ∀ r, s.table.lookup r = none ↔ r ∉ s.table.records
  /-- Interning gives the handle that the record has, with the session left as it is, or the next
  handle. No other record gets a handle then or loses its own. -/
  interned : ∀ fields, ∃ (handle : Nat) (s' : Session),
    (intern fields).run s = (.ok (.record handle), s') ∧
    s'.table.get? handle = some (RecordOf.sorted fields) ∧
    (s' = s ∨ handle = s.table.size ∧ s'.table.size = s.table.size + 1 ∧
      s'.table.lookup = Function.update s.table.lookup (RecordOf.sorted fields) (some handle))
  /-- Of fields with different names the order does not matter, also after any further calls. -/
  permuted : ∀ fields other, (RecordOf.names fields).Nodup → fields.Perm other →
    ∀ shape s', (intern fields).run s = (.ok shape, s') →
      ∀ more, (intern other).run (s'.after more) = (.ok shape, s'.after more)

/-- Once a record is stored, all orders of its fields are interned to the same handle. -/
theorem Orderly.intern_permuted (hs : s.Orderly) {fields other : List Field}
    (hnames : (RecordOf.names fields).Nodup) (hperm : fields.Perm other) {shape : Shape}
    {s' : Session} (hrun : (intern fields).run s = (.ok shape, s')) (more : List Call) :
    (intern other).run (s'.after more) = (.ok shape, s'.after more) := by
  obtain ⟨handle, s₁, hrun₁, hlookup, -⟩ := intern_returns fields s
  obtain ⟨hshape, rfl⟩ := Prod.mk.inj (hrun.symm.trans hrun₁)
  obtain rfl := Except.ok.inj hshape
  have hs' : s'.Orderly := by
    exact ((intern_keepsOrder hs fields).of_run hrun).1
  -- Sorted, the fields are the same record, and further calls have left it at its handle.
  rw [RecordOf.sorted_eq_of_perm hnames hperm] at hlookup
  obtain ⟨hafter, hgrows⟩ := hs'.after more
  exact run_intern_stored (hafter.indexed.lookup_of_grows hs'.indexed hgrows hlookup)

/-- The record table is a bijection that only grows : its laws hold after any calls, whatever is
interned, inferred or unified. -/
theorem handleLaws_after (stem : String) (calls : List Call) :
    HandleLaws (Session.after { table := { stem := stem } } calls) := by
  obtain ⟨hs, -⟩ := (orderly_start stem).after calls
  generalize Session.after { table := { stem := stem } } calls = s at hs ⊢
  exact
    { inOrder := hs.handedOut
      given := by
        intro call shape s' hrun
        have hresult := (call_keepsOrder hs call).result shape
        rw [hrun] at hresult
        exact hresult rfl
      distinct := hs.indexed.nodup
      stored := by
        intro handle hlt
        have hget : s.table.get? handle = some s.table.records[handle] := by
          rw [RecordTable.get?_natCast, List.getElem?_eq_getElem hlt]
        refine ⟨_, hget, (hs.indexed _ _).2 (List.getElem?_eq_getElem hlt), fun more => ?_⟩
        rw [(hs.after more).2.get?_eq (Shape.within_natCast.2 hlt), hget]
      inverse := by
        intro r handle
        rw [RecordTable.get?_natCast]
        exact hs.indexed r handle
      absent := fun _ => hs.indexed.lookup_eq_none
      interned := by
        intro fields
        obtain ⟨handle, s', hrun, hlookup, hchange⟩ := intern_returns fields s
        have hs' := ((intern_keepsOrder hs fields).of_run hrun).1
        refine ⟨handle, s', hrun, ?_, hchange⟩
        rw [RecordTable.get?_natCast]
        exact (hs'.indexed _ _).1 hlookup
      permuted := fun _ _ hnames hperm _ _ hrun => hs.intern_permuted hnames hperm hrun }

/-- Two fields, one over a handle that stands for nothing, are interned, and again in the other
order after a call that fails. -/
theorem handleLaws_after_swapped :
    ∃ s' s'', (intern [⟨"A", "a", .int64⟩, ⟨"B", "b", .record 7⟩]).run
        { table := { stem := "S" } } = (.ok (.record 0), s') ∧
      s'.after [.infer {} (.object [(.text "c", .null)]), .unify {} (.record 1) (.record 7)] = s'' ∧
      (intern [⟨"B", "b", .record 7⟩, ⟨"A", "a", .int64⟩]).run s'' = (.ok (.record 0), s'') :=
  ⟨_, _, rfl, rfl,
    (handleLaws_after "S" []).permuted _ _ (by decide) (.swap _ _ _) _ _ rfl _⟩

end Session

end JsonShape
