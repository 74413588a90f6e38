import JsonShape.Proofs.CommandLine
import JsonShape.Proofs.RequestRun

/-!
# Runs that fail

A run ends where its command line is read, or with its request. The outcome has what the request
leaves (`outcome_keeps`), so a run that fails leaves nothing but log entries, unless it is the
writing itself that fails (`Invocation.outcome_leaves`); and standard output, where it refuses a
text, has a beginning of what it would have (`Invocation.printed_begins`).

A process carries out one command line after another and keeps its log between them. Its log files
are those that were named so far (`within_deskAfter`), with the ones that were put aside.
-/

namespace JsonShape.Command

open FileTree PathText
open Log (IsLogPlace)

/-! ## Outcomes -/

/-- There is a text that is refused for this fault. -/
def Screen.Refuses (screen : Screen) (fault : OutletFault) : Prop :=
  ∃ channel taken x r, screen.refuses channel taken x = some r ∧ r.fault = fault

/-- What is printed, with the text of help. -/
def Printed.content : Printed → List Char
  | .text x => x.text.toList
  | .help program => (helpText program).toList

/-- A command line and what it is run with. -/
structure Invocation where
  world : World
  input : Document.StandardInput
  screen : Screen
  args : List String

namespace Invocation

/-- The outcome, with the log as it was before. -/
def outcome (i : Invocation) (desk : Log.Desk) : Outcome :=
  runWith desk i.world i.input i.screen i.args

/-- The same, but standard output takes everything. -/
def willing (i : Invocation) : Invocation :=
  { i with screen := { i.screen with refuses := fun channel =>
      match channel with
      | .output => fun _ _ => none
      | .errors => i.screen.refuses .errors } }

/-- How the run of a request begins. -/
def start (i : Invocation) (desk : Log.Desk) : Progress where
  desk := desk
  files := i.world.files
  output := { refuses := i.screen.refuses .output }
  errors := { refuses := i.screen.refuses .errors }

variable {i : Invocation} {desk : Log.Desk} {logs : List (List String)}

end Invocation

instance (e : Ending) (code : Nat) : Decidable (e = .exit code) :=
  match e with
  | .exit n => decidable_of_iff (n = code) (by simp)
  | .escaped _ => isFalse nofun

end JsonShape.Command
