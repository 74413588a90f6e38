import JsonShape.Command.Help
import JsonShape.Document.Load
import JsonShape.Log.Desk
import JsonShape.Settings.File
import JsonShape.Shape.Declaration
import JsonShape.Terminal.Outlet
import JsonShape.Terminal.Palette

/-!
# Runs

`run` carries out a command line on the files and variables around it and gives the `Outcome` :
how the run ended, what it printed, and the files it leaves. A file is written, or something
printed, only when nothing is left to go wrong but the writing itself. That can go wrong as well :
the disk may be too short for the file, and standard output or standard error may refuse a text,
which ends the run where it stands.

A process that carries out several command lines keeps its log between them, with the files that
earlier ones added to it; `runWith` starts from such a log.
-/

namespace JsonShape.Command

/-- What goes wrong in a run. -/
inductive Mishap where
  | report (r : Report)
  | settings (fault : SettingsFault)
  | load (fault : Document.LoadFault)
  | inference (fault : Fault)
  | render (fault : RenderFault)
  | log (fault : Log.DeskFault)
  /-- A settings file that cannot be written. -/
  | file (failure : OsFailure)
  /-- A text that standard output or standard error refuses. -/
  | outlet (fault : OutletFault)
deriving Inhabited

namespace Mishap

/-- The report of a mishap, where it has one; the others end the run as they are. -/
def report? : Mishap → Option Report
  | .report r => some r
  | .settings fault => fault.report?
  | .load fault => fault.report?
  | .render fault => fault.report?
  | _ => none

/-- The user interrupted the run. -/
def isInterrupt : Mishap → Bool
  | .load .interrupted => true
  | _ => false

/-- The mishap in one line. -/
def text (m : Mishap) : String :=
  match m.report? with
  | some r => r.text
  | none =>
    match m with
    | .load (.decode fault) => fault.text
    | .inference fault => fault.text
    | .log (.file stopped) => stopped.failure.text
    | .file failure => failure.text
    | .outlet fault => fault.text
    | _ => ""

end Mishap

/-- Where standard output goes, and which texts are refused. -/
structure Screen where
  isTerminal : Bool := false
  palette : Palette := .plain
  refuses : Channel → Refusals := fun _ _ _ => none

/-- A run under way : where log entries go, the files, and what was said. -/
structure Progress where
  desk : Log.Desk := .usual false
  files : FileTree := {}
  output : Outlet := {}
  errors : Outlet := {}

/-- Work of a run. -/
abbrev Task := ExceptT Mishap (StateM Progress)

namespace Progress

/-- The outlet of a channel. -/
def outlet (p : Progress) : Channel → Outlet
  | .output => p.output
  | .errors => p.errors

/-- Another outlet for a channel. -/
def setOutlet (p : Progress) (o : Outlet) : Channel → Progress
  | .output => { p with output := o }
  | .errors => { p with errors := o }

/-- Standard error after a text of the log. A text that it refuses is lost, of which the log
complains there. -/
def errorsAfter (p : Progress) (text : String) : Outlet :=
  match p.errors.write (Highlight.uncolored text) with
  | (errors, none) => errors
  | (errors, some _) => (errors.write (Highlight.uncolored Log.Filing.lostText)).1

/-- An event passed to the log. -/
def note (p : Progress) (e : Event) : Progress :=
  let filing := p.desk.filed p.files e.entry
  let shown := p.desk.shown e.entry ++ filing.complaints
  { p with
    desk := filing.desk
    files := filing.files
    errors := if shown.isEmpty then p.errors else p.errorsAfter shown }

/-- Events passed to the log. -/
def noteAll (p : Progress) (es : List Event) : Progress :=
  es.foldl note p

end Progress

/-- Work on the log and the files, which does not see what was said. -/
def onFiles {α : Type} (work : Log.Desk → FileTree → Except Mishap α × Log.Desk × FileTree) :
    Task α := fun p =>
  let r := work p.desk p.files
  (r.1, { p with desk := r.2.1, files := r.2.2 })

/-- The files as they are now. -/
def currentFiles : Task FileTree :=
  onFiles fun desk files => (.ok files, desk, files)

/-- What comes of a text that is taken, or refused for a fault. -/
def verdict : Option OutletFault → Except Mishap Unit
  | none => .ok ()
  | some fault => .error (.outlet fault)

/-- A text written to a channel. -/
def put (channel : Channel) (x : Highlight.Shown) : Task Unit := fun p =>
  let r := (p.outlet channel).write x
  (verdict r.2, p.setOutlet r.1 channel)

/-- A line written to a channel, and then its end. -/
def printLine (channel : Channel) (s : String) : Task Unit := do
  put channel (Highlight.uncolored s)
  put channel (Highlight.uncolored "\n")

/-- Lines on standard output, one after the other. -/
def printLines : List String → Task Unit
  | [] => pure ()
  | line :: rest => do
    printLine .output line
    printLines rest

/-- A result together with the events on the way to it. -/
def noting {ε α : Type} (wrap : ε → Mishap) (r : Except ε α × List Event) : Task α := do
  modify fun p => p.noteAll r.2
  match r.1 with
  | .ok x => pure x
  | .error e => throw (wrap e)

/-- A path that is given and not empty. -/
def givenPath? : Value → Option String
  | .text "" => none
  | .text s => some s
  | _ => none

/-! ## Declarations -/

/-- The settings of a generation, checked. -/
def generationSettings (w : World) (g : Generation) : Task Settings := do
  let s ← noting .settings (Settings.load w (givenPath? g.settingsFile))
  match (s.override g.overrides).validated with
  | .ok s => pure s
  | .error r => throw (.report r)

/-- The log set up as the settings say. -/
def openLog (s : Settings) (g : Generation) : Task Unit :=
  onFiles fun desk files =>
    match desk.setLevel (.name (Settings.textOf s.logLevel)) with
    | .error fault => (.error (.log fault), desk, files)
    | .ok desk =>
      match givenPath? g.logFile with
      | none => (.ok (), desk, files)
      | some path =>
        match desk.addFile files path none with
        | .error fault => (.error (.log fault), desk, fault.left files)
        | .ok (desk, files) => (.ok (), desk, files)

/-- The declarations for the input. -/
def declarations (input : Document.StandardInput) (s : Settings) (path : String) :
    Task String := do
  let documents ← noting .load (Document.loadDocuments (← currentFiles) input path)
  match documentsValue documents with
  | none => throw (.report (.noInput Report.noData .null))
  | some v =>
    let x ← noting .inference (inferValue s.options v)
    noting .render (render (Settings.textOf s.outputFormat) true x)

/-- The report on output that cannot be written. -/
def outputReport (path : String) (failure : OsFailure) : Report :=
  .fileOperation ("Cannot write output: " ++ failure.reason.shown) (.text path) (.text "write")

/-- The files changed; where that stops half way, what it left stays. -/
def changeFiles (change : FileTree → Except FileTree.Unfinished FileTree)
    (wrap : OsFailure → Mishap) : Task Unit :=
  onFiles fun desk files =>
    match change files with
    | .error stopped => (.error (wrap stopped.failure), desk, stopped.left)
    | .ok files => (.ok (), desk, files)

/-- The declarations written to a file. -/
def deliverToFile (palette : Palette) (format path text : String) : Task Unit := do
  changeFiles (fun files => files.writeWithParents path (Utf8.encode text)) fun failure =>
    .report (outputReport path failure)
  printLine .errors (palette.success ("Declarations written to: " ++ path))
  modify fun p => p.note (.wrote format path)

/-- The declarations shown. -/
def deliverToScreen (w : World) (screen : Screen) (s : Settings) (text : String) : Task Unit :=
  match Highlight.colorize text (Settings.textOf s.outputFormat) (Settings.textOf s.colorMode)
      screen.isTerminal (w.environmentValue? "NO_COLOR") with
  | .ok x => put .output x
  | .error r => throw (.report r)

/-- The declarations delivered where they are wanted. -/
def deliver (w : World) (screen : Screen) (g : Generation) (s : Settings) (text : String) :
    Task Unit :=
  match givenPath? g.output with
  | some path =>
    deliverToFile screen.palette (Settings.textOf s.outputFormat) (PathText.plain path) text
  | none => deliverToScreen w screen s text

/-- The settings and the declarations of a generation. -/
def prepare (w : World) (input : Document.StandardInput) (g : Generation) :
    Task (Settings × String) := do
  let s ← generationSettings w g
  openLog s g
  let text ← declarations input s g.input
  pure (s, text)

/-- Carries out a generation. -/
def generateTask (w : World) (input : Document.StandardInput) (screen : Screen) (g : Generation) :
    Task Unit := do
  let (s, text) ← prepare w input g
  deliver w screen g s text

/-- Name of a generation in the log. -/
def generateName : String := "cmd_generate"

/-- What is noted at the end of a task; of an interrupt, nothing is. -/
def endEvents {α : Type} (name : String) : Except Mishap α → List Event
  | .ok _ => [.finished name]
  | .error m => if m.isInterrupt then [] else [.failed name m.text]

/-- A task whose end is noted in the log. -/
def timed {α : Type} (name : String) (task : Task α) : Task α := fun p =>
  let r := task p
  (r.1, r.2.noteAll (endEvents name r.1))

/-! ## Settings -/

/-- A line for each setting. -/
def settingLines (s : Settings) : List String :=
  s.entries.map fun e => "  " ++ e.1 ++ ": " ++ e.2.shown

/-- Where the settings come from. -/
def sourceLine (w : World) (path : Option String) : String :=
  match Settings.chooseFile? w path with
  | some p => "\nConfig file: " ++ p
  | none => "\nNo config file found (using defaults)"

/-- Shows the settings in effect. -/
def showTask (w : World) (screen : Screen) (settingsFile : Value) : Task Unit := do
  let path := givenPath? settingsFile
  let s ← noting .settings (Settings.load w path)
  printLines ([screen.palette.header "Current struct-infer configuration:"] ++ settingLines s ++
    [screen.palette.dimmed (sourceLine w path)])

/-- The report on a settings file that is already there. -/
def existsReport (path : String) : Report :=
  .argument ("Config file " ++ path ++ " already exists. Use --force to overwrite.")
    (.text "config_path") (.text path)

/-- Writes a settings file with the usual values, and then says so. -/
def initTask (path : String) (force : Bool) : Task Unit := do
  let path := PathText.plain path
  if (← currentFiles).isPresent path && !force then throw (.report (existsReport path))
  else
    changeFiles (fun files => Settings.save {} files path) .file
    printLine .output ("Created config file: " ++ path)

/-! ## Outcomes -/

/-- What is printed on standard output. -/
inductive Printed where
  | text (x : Highlight.Shown)
  | help (program : String)
deriving Inhabited

/-- How a run ends. -/
inductive Ending where
  | exit (code : Nat)
  /-- A mishap without a report. -/
  | escaped (m : Mishap)
deriving Inhabited

/-- How a run ended and what it leaves. -/
structure Outcome where
  ending : Ending
  printed : Printed
  errors : String
  files : FileTree
  desk : Log.Desk
deriving Inhabited

/-- Nothing on standard output. -/
def silent : Printed := .text (Highlight.uncolored "")

/-- Carries out a request. -/
def perform (w : World) (input : Document.StandardInput) (screen : Screen) : Request → Task Unit
  | .generate g => timed generateName (generateTask w input screen g)
  | .showSettings settingsFile => showTask w screen settingsFile
  | .initSettings path force => initTask path force
  | .noAction =>
    throw (.report (.argument "Missing config action" (.text "action") (.text "show|init")))

/-- The outcome of a run that ends here. -/
def Progress.outcome (p : Progress) (ending : Ending) : Outcome :=
  ⟨ending, .text p.output.taken, p.errors.taken.text, p.files, p.desk⟩

/-- The outcome of a run that ends with a line on standard error. -/
def lastLine (p : Progress) (s : String) (code : Nat) : Outcome :=
  match (printLine .errors s).run p with
  | (.ok _, p) => p.outcome (.exit code)
  | (.error m, p) => p.outcome (.escaped m)

/-- The outcome of a task. -/
def outcome (screen : Screen) : Except Mishap Unit × Progress → Outcome
  | (.ok _, p) => p.outcome (.exit 0)
  | (.error m, p) =>
    if m.isInterrupt then lastLine p "\nOperation cancelled by user" 130
    else
      match m.report? with
      | some r => lastLine p (screen.palette.alarm ("Error: " ++ r.text)) 1
      | none => p.outcome (.escaped m)

/-- What the reader of a command line writes before it ends the run with a code. A failure of the
operating system is overlooked. -/
def announce (refuses : Refusals) (text : String) (code : Nat) : Highlight.Shown × Ending :=
  match ({ refuses } : Outlet).write (Highlight.uncolored text) with
  | (o, some (.encoding message)) => (o.taken, .escaped (.outlet (.encoding message)))
  | (o, _) => (o.taken, .exit code)

/-- The outcome of a run that ends with the help of a program. -/
def helped (desk : Log.Desk) (w : World) (screen : Screen) (program : String) (code : Nat) :
    Outcome :=
  let (shown, ending) := announce (screen.refuses .output) (helpText program) code
  let printed :=
    if shown = Highlight.uncolored (helpText program) then .help program else .text shown
  ⟨ending, printed, "", w.files, desk⟩

/-- Carries out a command line, with the log as earlier ones have left it. -/
def runWith (desk : Log.Desk) (w : World) (input : Document.StandardInput) (screen : Screen)
    (args : List String) : Outcome :=
  match readRequest args with
  | .error (.help program) => helped desk w screen program 0
  | .error .version =>
    let (shown, ending) := announce (screen.refuses .output) (versionText ++ "\n") 0
    ⟨ending, .text shown, "", w.files, desk⟩
  | .error (.misuse program message) =>
    let (shown, ending) := announce (screen.refuses .errors)
      (program ++ ": error: " ++ message ++ "\n") 2
    ⟨ending, silent, shown.text, w.files, desk⟩
  | .ok none => helped desk w screen programName 1
  | .ok (some request) =>
    outcome screen ((perform w input screen request).run
      { desk := desk
        files := w.files
        output := { refuses := screen.refuses .output }
        errors := { refuses := screen.refuses .errors } })

/-- Carries out the first command line of a process. -/
def run (w : World) (input : Document.StandardInput) (screen : Screen) (args : List String) :
    Outcome :=
  runWith (.usual false) w input screen args

end JsonShape.Command
