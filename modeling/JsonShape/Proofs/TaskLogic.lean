import JsonShape.Command.Run
import JsonShape.Proofs.LogFrame

/-!
# Tasks of a run

What a task does to the run it is part of is said by a few properties that a sequence of tasks
inherits from its parts. Every task is `Orderly` : it fails for a text that was refused only if
there is such a text, and where standard output had taken everything it would have done the same,
but for what comes after a refusal, so that standard output then holds a beginning of what it would
hold.

Tasks before the output only write to the log (`LogsOnly`); tasks that only print leave the files
and the log alone, and fail only where a text is refused (`PrintsOnly`).
-/

namespace JsonShape

/-! ## Outlets -/

namespace Highlight.Shown

end Highlight.Shown

namespace Outlet

variable (o : Outlet) (x : Highlight.Shown)

/-- A text is taken, or it is refused and the outlet holds the first of what it was given. -/
theorem write_cases :
    o.write x = ({ o with taken := o.taken.append x }, none) ∨
      ∃ r, o.refuses o.taken x = some r ∧
        o.write x = ({ o with taken := (o.taken.append x).cut r.kept }, some r.fault) := by
  rw [write]
  cases hrefuses : o.refuses o.taken x with
  | none => exact Or.inl rfl
  | some r => exact Or.inr ⟨r, rfl, rfl⟩

theorem refuses_write : (o.write x).1.refuses = o.refuses := by
  obtain h | ⟨r, -, h⟩ := o.write_cases x
  · rw [h]
  · rw [h]

end Outlet

namespace Command

open FileTree

variable {α β : Type} {logs : List (List String)} {p q : Progress}

/-! ## Sequences -/

theorem run_bind_ok {x : Task α} {a : α} (h : x.run p = (.ok a, q)) (f : α → Task β) :
    (x >>= f).run p = (f a).run q := by
  have hbind : (x >>= f).run p = ExceptT.bindCont f (x.run p).1 (x.run p).2 := rfl
  rw [hbind, h]
  rfl

theorem run_bind_error {x : Task α} {m : Mishap} (h : x.run p = (.error m, q)) (f : α → Task β) :
    (x >>= f).run p = (.error m, q) := by
  have hbind : (x >>= f).run p = ExceptT.bindCont f (x.run p).1 (x.run p).2 := rfl
  rw [hbind, h]
  rfl

/-- What both parts of a task keep, the task keeps. -/
theorem run_bind_keeps {γ : Type} (part : Progress → γ) {x : Task α} {f : α → Task β}
    (hx : ∀ p, part (x.run p).2 = part p) (hf : ∀ a p, part ((f a).run p).2 = part p)
    (p : Progress) : part ((x >>= f).run p).2 = part p := by
  have hfirst := hx p
  rcases hrun : x.run p with ⟨m | a, q⟩
  · rw [run_bind_error hrun]
    rwa [hrun] at hfirst
  · rw [run_bind_ok hrun, hf a]
    rwa [hrun] at hfirst

/-! ## Refusals -/

namespace Progress

/-- The same, but standard output takes everything. -/
def willing (p : Progress) : Progress :=
  { p with output := { p.output with refuses := fun _ _ => none } }

/-- There is a text that is refused for this fault. -/
def Refuses (p : Progress) (fault : OutletFault) : Prop :=
  ∃ channel taken x r, (p.outlet channel).refuses taken x = some r ∧ r.fault = fault

/-- What standard output has taken. -/
def shown (p : Progress) : List Char := p.output.taken.text.toList

theorem willing_eq_self (h : p.output.refuses = fun _ _ => none) : p.willing = p := by
  obtain ⟨desk, files, ⟨taken, refuses⟩, errors⟩ := p
  obtain rfl : refuses = fun _ _ => none := h
  rfl

theorem note_willing (p : Progress) (e : Event) : p.willing.note e = (p.note e).willing := by
  simp only [note, willing]
  rfl

theorem noteAll_willing (p : Progress) (es : List Event) :
    p.willing.noteAll es = (p.noteAll es).willing := by
  induction es generalizing p with
  | nil => rfl
  | cons e es ih =>
    have hcons : p.willing.noteAll (e :: es) = (p.willing.note e).noteAll es := rfl
    rw [hcons, note_willing]
    exact ih (p.note e)

theorem output_noteAll (p : Progress) (es : List Event) : (p.noteAll es).output = p.output := by
  induction es generalizing p with
  | nil => rfl
  | cons e es ih => exact ih (p.note e)

theorem refuses_errorsAfter (p : Progress) (text : String) :
    (p.errorsAfter text).refuses = p.errors.refuses := by
  rw [errorsAfter]
  obtain h | ⟨r, -, h⟩ := p.errors.write_cases (Highlight.uncolored text)
  · rw [h]
  · rw [h]
    exact Outlet.refuses_write _ _

theorem refuses_note (p : Progress) (e : Event) : (p.note e).errors.refuses = p.errors.refuses := by
  simp only [note]
  split_ifs
  · rfl
  · exact p.refuses_errorsAfter _

theorem refuses_noteAll (p : Progress) (es : List Event) (channel : Channel) :
    ((p.noteAll es).outlet channel).refuses = (p.outlet channel).refuses := by
  cases channel with
  | output => exact congrArg Outlet.refuses (p.output_noteAll es)
  | errors =>
    induction es generalizing p with
    | nil => rfl
    | cons e es ih => exact (ih (p.note e)).trans (p.refuses_note e)

end Progress

/-- The fault for which a text was refused, where the mishap is that. -/
def Mishap.refusal? : Mishap → Option OutletFault
  | .outlet fault => some fault
  | _ => none

/-- The fault for which a text was refused, where the result is due to that. -/
def refusal? : Except Mishap α → Option OutletFault
  | .ok _ => none
  | .error m => m.refusal?

/-- The task fails for refused texts only where there are such, and standard output holds a
beginning of what it would hold had it taken everything. -/
structure Orderly (x : Task α) : Prop where
  refusals : ∀ (p : Progress) (channel : Channel),
    ((x.run p).2.outlet channel).refuses = (p.outlet channel).refuses
  fault : ∀ (p : Progress) (fault : OutletFault),
    refusal? (x.run p).1 = some fault → p.Refuses fault
  follows : ∀ p : Progress, x.run p.willing = ((x.run p).1, (x.run p).2.willing) ∨
    (∃ fault, refusal? (x.run p).1 = some fault) ∧
      (x.run p).2.shown <+: (x.run p.willing).2.shown
  grows : ∀ p : Progress, p.shown <+: (x.run p.willing).2.shown

namespace Orderly

variable {x : Task α}

/-- What takes everything goes on to take everything. -/
theorem willing_run (h : Orderly x) (p : Progress) :
    (x.run p.willing).2.willing = (x.run p.willing).2 :=
  Progress.willing_eq_self (h.refusals p.willing .output)

/-- A task that prints nothing on standard output. -/
theorem of_still (hstill : ∀ p, x.run p.willing = ((x.run p).1, (x.run p).2.willing))
    (houtput : ∀ p, (x.run p).2.output = p.output)
    (herrors : ∀ p, (x.run p).2.errors.refuses = p.errors.refuses)
    (hfault : ∀ p fault, refusal? (x.run p).1 = some fault → p.Refuses fault) : Orderly x where
  refusals := fun p channel => by
    cases channel with
    | output => exact congrArg Outlet.refuses (houtput p)
    | errors => exact herrors p
  fault := hfault
  follows := fun p => Or.inl (hstill p)
  grows := fun p => by rw [Progress.shown, Progress.shown, houtput p.willing]; exact List.prefix_rfl

theorem bind {f : α → Task β} (hx : Orderly x) (hf : ∀ a, Orderly (f a)) : Orderly (x >>= f) where
  refusals := fun p channel =>
    run_bind_keeps (fun p => (p.outlet channel).refuses) (fun p => hx.refusals p channel)
      (fun a p => (hf a).refusals p channel) p
  fault := fun p fault h => by
    rcases hrun : x.run p with ⟨m | a, q⟩
    · rw [run_bind_error hrun] at h
      exact hx.fault p fault (by rw [hrun]; exact h)
    · rw [run_bind_ok hrun] at h
      obtain ⟨channel, taken, y, r, hr⟩ := (hf a).fault q fault h
      have hfirst := hx.refusals p channel
      rw [hrun] at hfirst
      exact ⟨channel, taken, y, r, hfirst ▸ hr⟩
  follows := fun p => by
    have hfollows := hx.follows p
    rcases hrun : x.run p with ⟨m | a, q⟩
    · rw [run_bind_error hrun]
      rw [hrun] at hfollows
      obtain hsame | ⟨hfault, hbegins⟩ := hfollows
      · rw [run_bind_error hsame]
        exact Or.inl rfl
      · -- The run that is not refused anything goes on, and what it prints only grows.
        refine Or.inr ⟨hfault, hbegins.trans ?_⟩
        have hwilling := hx.willing_run p
        rcases hrun' : x.run p.willing with ⟨m' | a', q'⟩
        · simp only [run_bind_error hrun', List.prefix_rfl]
        · rw [run_bind_ok hrun']
          rw [hrun'] at hwilling
          have hgrows := (hf a').grows q'
          rwa [show q'.willing = q' from hwilling] at hgrows
    · rw [run_bind_ok hrun]
      rw [hrun] at hfollows
      obtain hsame | ⟨⟨fault, hfault⟩, -⟩ := hfollows
      · rw [run_bind_ok hsame]
        exact (hf a).follows q
      · cases hfault
  grows := fun p => by
    have hgrows := hx.grows p
    have hwilling := hx.willing_run p
    rcases hrun : x.run p.willing with ⟨m | a, q⟩
    · rw [run_bind_error hrun]
      rwa [hrun] at hgrows
    · rw [run_bind_ok hrun]
      rw [hrun] at hgrows hwilling
      have hmore := (hf a).grows q
      rw [show q.willing = q from hwilling] at hmore
      exact hgrows.trans hmore

end Orderly

/-! ## Tasks that only log -/

/-- Whatever comes of the task, it writes to the log at most, whose files are at these places. -/
structure LogsOnly (logs : List (List String)) (x : Task α) : Prop extends Orderly x where
  output : ∀ p : Progress, (x.run p).2.output = p.output
  logged : ∀ p : Progress, p.desk.Within logs →
    (x.run p).2.desk.Within logs ∧ Logged logs p.files (x.run p).2.files

/-- A task that does nothing. -/
theorem orderly_of_run {x : Task α} {r : Except Mishap α} (h : ∀ p, x.run p = (r, p))
    (hr : refusal? r = none) : Orderly x :=
  .of_still (fun p => by rw [h, h]) (fun p => by rw [h]) (fun p => by rw [h])
    fun p fault hfault => by rw [h, hr] at hfault; cases hfault

theorem orderly_pure (a : α) : Orderly (pure a : Task α) :=
  orderly_of_run (fun _ => rfl) rfl

namespace LogsOnly

theorem bind {x : Task α} {f : α → Task β} (hx : LogsOnly logs x)
    (hf : ∀ a, LogsOnly logs (f a)) : LogsOnly logs (x >>= f) where
  toOrderly := hx.toOrderly.bind fun a => (hf a).toOrderly
  output := run_bind_keeps Progress.output hx.output fun a => (hf a).output
  logged := fun p hdesk => by
    have hfirst := hx.logged p hdesk
    rcases hrun : x.run p with ⟨m | a, q⟩
    · rw [run_bind_error hrun]
      rwa [hrun] at hfirst
    · rw [run_bind_ok hrun]
      rw [hrun] at hfirst
      obtain ⟨hdesk', hlast⟩ := (hf a).logged q hfirst.1
      exact ⟨hdesk', hfirst.2.trans hlast⟩

/-- A task that does nothing. -/
theorem of_run {x : Task α} {r : Except Mishap α} (h : ∀ p, x.run p = (r, p))
    (hr : refusal? r = none) : LogsOnly logs x where
  toOrderly := orderly_of_run h hr
  output := fun p => by rw [h]
  logged := fun p hdesk => by rw [h]; exact ⟨hdesk, Logged.refl _ _⟩

theorem pure (a : α) : LogsOnly logs (Pure.pure a) :=
  of_run (fun _ => rfl) rfl

theorem throw {m : Mishap} (hm : m.refusal? = none) :
    LogsOnly logs (MonadExcept.throw m : Task α) :=
  of_run (fun _ => rfl) hm

end LogsOnly

section Noting

variable {ε : Type} {wrap : ε → Mishap}

end Noting

/-! ## Tasks that only print -/

/-- The task leaves the files and the log alone, and fails only where a text is refused. -/
structure PrintsOnly (x : Task α) : Prop extends Orderly x where
  files : ∀ p : Progress, (x.run p).2.files = p.files
  desk : ∀ p : Progress, (x.run p).2.desk = p.desk
  fails : ∀ (p : Progress) (m : Mishap), (x.run p).1 = .error m → ∃ fault, m = .outlet fault

namespace PrintsOnly

theorem pure (a : α) : PrintsOnly (Pure.pure a) where
  toOrderly := orderly_pure a
  files := fun _ => rfl
  desk := fun _ => rfl
  fails := fun _ _ h => by cases h

theorem bind {x : Task α} {f : α → Task β} (hx : PrintsOnly x) (hf : ∀ a, PrintsOnly (f a)) :
    PrintsOnly (x >>= f) where
  toOrderly := hx.toOrderly.bind fun a => (hf a).toOrderly
  files := run_bind_keeps Progress.files hx.files fun a => (hf a).files
  desk := run_bind_keeps Progress.desk hx.desk fun a => (hf a).desk
  fails := fun p m h => by
    rcases hrun : x.run p with ⟨m' | a, q⟩
    · rw [run_bind_error hrun] at h
      obtain rfl := Except.error.inj h
      exact hx.fails p m' (by rw [hrun])
    · rw [run_bind_ok hrun] at h
      exact (hf a).fails q m h

end PrintsOnly

theorem run_timed (name : String) (x : Task α) (p : Progress) :
    (timed name x).run p = ((x.run p).1, (x.run p).2.noteAll (endEvents name (x.run p).1)) :=
  rfl

theorem Progress.shown_noteAll (p : Progress) (es : List Event) :
    (p.noteAll es).shown = p.shown := by
  rw [shown, shown, output_noteAll]

theorem Orderly.timed {x : Task α} (hx : Orderly x) (name : String) :
    Orderly (Command.timed name x) where
  refusals := fun p channel => (Progress.refuses_noteAll _ _ channel).trans (hx.refusals p channel)
  fault := hx.fault
  follows := fun p => by
    rw [run_timed, run_timed]
    obtain hsame | ⟨hfault, hbegins⟩ := hx.follows p
    · rw [hsame, Progress.noteAll_willing]
      exact Or.inl rfl
    · rw [Progress.shown_noteAll, Progress.shown_noteAll]
      exact Or.inr ⟨hfault, hbegins⟩
  grows := fun p => by
    rw [run_timed, Progress.shown_noteAll]
    exact hx.grows p

end Command

end JsonShape
