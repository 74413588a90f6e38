import JsonShape.Command.Help
import JsonShape.Command.Run

/-!
# The program

Finds what a run can see, carries it out and leaves what it leaves. A run sees the files that its
arguments can name, the log files that were put aside and the usual places of settings files; it is
given standard input only where it reads it.
-/

namespace JsonShape.Program

/-- What the file system holds at a path. -/
def nodeAt? (path : String) : IO (Option FileTree.Node) := do
  try
    let content ← IO.FS.readBinFile path
    return some (.file content.toList)
  catch
    | .inappropriateType .. => return some .directory
    | _ => return none

/-- The tree with what the file system holds at a path and above it. -/
def sighted (tree : FileTree) (path : String) : IO FileTree := do
  let parts := PathText.plainComponents path
  let mut tree := tree
  for place in (List.range (parts.length + 1)).map parts.take do
    unless (tree.node? place).isSome do
      if let some n ← nodeAt? (PathText.ofComponents place) then
        tree := tree.put place n
  return tree

/-- The paths that an argument can name : itself, and what stands behind an option's name. -/
def pathsOf (arg : String) : List String :=
  let assigned := ((Command.atEquals? arg).map Prod.snd).toList
  if arg.startsWith "-o" then [arg, (arg.drop 2).toString] ++ assigned else arg :: assigned

/-- The paths where the log file of a run is put aside. -/
def backupsOf (args : List String) : List String :=
  match Command.readRequest args with
  | .ok (some (.generate g)) =>
    (Command.givenPath? g.logFile).toList.flatMap fun path =>
      (Log.fileNames (PathText.plainComponents path)).map PathText.ofComponents
  | _ => []

/-- The variables that a run reads. -/
def variableNames : List String :=
  "NO_COLOR" :: Setting.checked.map Setting.variableName

/-- What surrounds the run. -/
def surroundings (args : List String) : IO World := do
  let environment ← variableNames.filterMapM fun name => do
    return (← IO.getEnv name).map fun v => (name, v)
  let w : World := { environment, home := (← IO.getEnv "HOME").getD "~" }
  let files ← (args.flatMap pathsOf ++ backupsOf args ++ Settings.usualPlaces.map w.expand).foldlM
    sighted {}
  return { w with files }

/-- Standard input, if the command line asks for it. -/
def inputFor (args : List String) : IO Document.StandardInput := do
  match Command.readRequest args with
  | .ok (some (.generate g)) =>
    if g.input == Document.standardPath then
      return .bytes (← (← IO.getStdin).readBinToEnd).toList true
    else return .bytes [] true
  | _ => return .bytes [] true

/-- Leaves the files and directories that are new or changed, and no file that is gone. -/
def leave (before after : FileTree) : IO Unit := do
  for (place, n) in before.nodes do
    if (after.node? place).isNone && n != .directory then
      IO.FS.removeFile (PathText.ofComponents place)
  for (place, n) in after.nodes do
    unless before.node? place == some n do
      let path := PathText.ofComponents place
      match n with
      | .directory => IO.FS.createDirAll path
      | .file content => IO.FS.writeBinFile path ⟨content.toArray⟩

end JsonShape.Program

open JsonShape Program

def main (args : List String) : IO UInt32 := do
  let w ← surroundings args
  let isTerminal ← (← IO.getStdout).isTty
  let screen : Command.Screen :=
    { isTerminal, palette := .choose isTerminal (w.environmentValue? "NO_COLOR").isSome }
  let o := Command.run w (← inputFor args) screen args
  leave w.files o.files
  IO.eprint o.errors
  match o.printed with
  | .text x => IO.print x.text
  | .help program => IO.print (Command.helpText program)
  match o.ending with
  | .exit code => return code.toUInt32
  | .escaped m =>
    IO.eprintln m.text
    return 1
