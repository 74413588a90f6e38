import JsonShape.Log.Level
import JsonShape.Text.Utf8
import JsonShape.World.FileTree

/-!
# Where log entries go

A `Desk` passes entries at or above its level on to its sinks, each with a level of its own : the
terminal, where names of levels may be coloured, and files, which grow at their end. A desk that
is not set up yet sets itself up with the usual level when it is first used.

A file that has grown to its limit is put aside under a numbered name before the next entry
(`Filing.rollOver`), and so are the files that were put aside before, up to the last number. A sink
writes to the file that it has open, wherever that file is moved; the sinks and the files are
changed together (`Filing`). An entry that cannot be written is lost, and the desk complains of it.

Entries of a source outside the program's own tree reach no sink; from the usual level on, only
their message is shown.
-/

namespace JsonShape.Log

/-- Name of the tree that all sources of the program belong to. -/
def treeName : String := "struct_infer"

/-- The file that a sink has open. -/
inductive Stream where
  | onFile (place : List String)
  /-- A file that has no name any more, of which only the size counts. -/
  | onNameless (size : Nat)
  | closed
deriving DecidableEq, Repr, Inhabited

/-- Where a sink writes; a file has a place of its own, where it is opened. -/
inductive Target where
  | terminal (colored : Bool)
  | file (base : List String) (stream : Stream)
deriving DecidableEq, Repr, Inhabited

/-- A place that takes entries from a level on. -/
structure Sink where
  level : Level
  target : Target
deriving DecidableEq, Repr, Inhabited

/-- A level as it is asked for. -/
inductive LevelRequest where
  | name (s : String)
  | number (n : Level)
deriving DecidableEq, Repr, Inhabited

/-- The level that is asked for, if there is one of that name. -/
def LevelRequest.level? : LevelRequest → Option Level
  | .name s => Level.ofName? s
  | .number n => some n

/-- The level that is asked for where nothing else is said. -/
def LevelRequest.usual : LevelRequest := .name "WARNING"

/-- The level and the sinks in use. -/
structure Desk where
  isSetUp : Bool := false
  level : Level := 0
  sinks : List Sink := []
deriving DecidableEq, Repr, Inhabited

/-- Why a desk cannot do what it is asked to. -/
inductive DeskFault where
  | unknownLevel
  | file (stopped : FileTree.Unfinished)
deriving Inhabited

/-- The files after a fault. -/
def DeskFault.left (t : FileTree) : DeskFault → FileTree
  | .unknownLevel => t
  | .file stopped => stopped.left

/-! ## Lines -/

/-- The time of an entry; no clock is kept. -/
def clock : String := "<time>"

/-- The colour of a level's name. -/
def colors : List (String × String) :=
  [("DEBUG", "\x1b[36m"), ("INFO", "\x1b[32m"), ("WARNING", "\x1b[33m"), ("ERROR", "\x1b[31m"),
    ("CRITICAL", "\x1b[35m")]

/-- The name of a level, coloured where it has a colour. -/
def coloredName (l : Level) : String :=
  match colors.lookup l.name with
  | some code => code ++ l.name ++ "\x1b[0m"
  | none => l.name

/-- The line of an entry. -/
def Entry.line (e : Entry) (colored : Bool) : String :=
  clock ++ " - " ++ e.source ++ " - " ++ (if colored then coloredName e.level else e.level.name) ++
    " - " ++ e.message ++ "\n"

/-- The source that a name stands for, inside the program's tree. -/
def sourceName (name : String) : String :=
  if name.startsWith treeName then name else treeName ++ "." ++ name

/-- The source belongs to the program's tree. -/
def inTree (source : String) : Bool :=
  source == treeName || source.startsWith (treeName ++ ".")

namespace Desk

/-- The level from which entries pass; a level of zero leaves it at the usual one. -/
def threshold (d : Desk) : Level :=
  if d.level == 0 then Level.warning else d.level

/-- The sink takes the entry. Entries of level zero and below are never taken. -/
def takes (d : Desk) (e : Entry) (s : Sink) : Bool :=
  inTree e.source && 0 < e.level && d.threshold ≤ e.level && s.level ≤ e.level

/-- What an entry shows on the terminal. -/
def shown (d : Desk) (e : Entry) : String :=
  if inTree e.source then
    String.join ((d.sinks.filter (d.takes e)).map fun s =>
      match s.target with
      | .terminal colored => e.line colored
      | .file .. => "")
  else if Level.warning ≤ e.level then e.message ++ "\n"
  else ""

/-- The stream of the sink with the given number. -/
def streamAt (d : Desk) (j : Nat) : Stream :=
  match d.sinks[j]? with
  | some ⟨_, .file _ stream⟩ => stream
  | _ => .closed

/-- The desk with a change to the streams of its sinks, by their numbers. -/
def mapStreams (d : Desk) (change : Nat → Stream → Stream) : Desk :=
  { d with sinks := d.sinks.mapIdx fun j s =>
      match s.target with
      | .terminal _ => s
      | .file base stream => { s with target := .file base (change j stream) } }

end Desk

/-! ## Files of entries -/

/-- The size that a file of entries does not grow to, in bytes. -/
def sizeLimit : Nat := 50 * 1024 * 1024

/-- How many files are put aside at most. -/
def backupCount : Nat := 5

/-- Where a file is put aside. -/
def backupPlace (base : List String) (number : Nat) : List String :=
  base.dropLast ++ [base.getLast?.getD "" ++ "." ++ toString number]

/-- The place of a file and those where it is put aside. -/
def fileNames (base : List String) : List (List String) :=
  base :: (List.range backupCount).map fun i => backupPlace base (i + 1)

/-- What moves where when a file is put aside : the last one first. -/
def shifts (base : List String) : List (List String × List String) :=
  ((fileNames base).zip (fileNames base).tail).reverse

/-- A desk with the files that its sinks write to, and what it complains of. -/
structure Filing where
  desk : Desk
  files : FileTree
  complaints : String := ""
deriving Inhabited

namespace Filing

/-- The size of the file that a stream is on. -/
def size (f : Filing) : Stream → Nat
  | .onFile place =>
    match f.files.node? place with
    | some (.file content) => content.length
    | _ => 0
  | .onNameless size => size
  | .closed => 0

/-- The sink with the given number on another stream. -/
def setStream (f : Filing) (j : Nat) (stream : Stream) : Filing :=
  { f with desk := f.desk.mapStreams fun i other => if i = j then stream else other }

/-- A file loses its name; what is on it stays on it. -/
def remove (f : Filing) (place : List String) : Filing :=
  { f with
    desk := f.desk.mapStreams fun _ stream =>
      if stream = .onFile place then .onNameless (f.size stream) else stream
    files := f.files.remove place }

/-- What stands at a place is moved to another, with what is on it. -/
def move (f : Filing) (source target : List String) : Filing :=
  { f with
    desk := f.desk.mapStreams fun _ stream =>
      match stream with
      | .onFile place => .onFile (FileTree.moved source target place)
      | other => other
    files := f.files.move source target }

/-- What stands at a place takes the place of a file, or of nothing; a directory is not given up. -/
def replace (f : Filing) (source target : List String) : Except Filing Filing :=
  match f.files.node? source, f.files.node? target with
  | none, _ => .ok f
  | some _, none => .ok (f.move source target)
  | some _, some (.file _) => .ok ((f.remove target).move source target)
  | some _, some .directory => .error f

/-- Moves are made one after the other; one that fails is the last. -/
def rollOver (f : Filing) : List (List String × List String) → Except Filing Filing
  | [] => .ok f
  | (source, target) :: rest => do (← f.replace source target).rollOver rest

/-- The sink's file opened, which is made if it is not there. -/
def reopen (f : Filing) (j : Nat) (base : List String) : Except Filing Filing :=
  match f.files.node? base.dropLast, f.files.node? base with
  | _, some (.file _) => .ok (f.setStream j (.onFile base))
  | some .directory, none =>
    .ok ({ f with files := f.files.put base (.file []) }.setStream j (.onFile base))
  | _, _ => .error f

/-- The sink's file open. -/
def opened (f : Filing) (j : Nat) (base : List String) : Except Filing Filing :=
  if f.desk.streamAt j = .closed then f.reopen j base else .ok f

/-- The sink's file put aside if a line would bring it to its limit, and a new one opened. A place
that has become a directory is let be. -/
def ready (f : Filing) (j : Nat) (base : List String) (line : String) : Except Filing Filing :=
  if f.files.node? base = some .directory then .ok f
  else do
    let f ← f.opened j base
    if f.size (f.desk.streamAt j) + line.length < sizeLimit then .ok f
    else (← (f.setStream j .closed).rollOver (shifts base)).reopen j base

/-- A line at the end of the file that the sink has open. -/
def append (f : Filing) (j : Nat) (line : String) : Filing :=
  match f.desk.streamAt j with
  | .onFile place => { f with files := f.files.append place (Utf8.encode line) }
  | .onNameless size => f.setStream j (.onNameless (size + (Utf8.encode line).length))
  | .closed => f

/-- A line passed to the sink. -/
def emit (f : Filing) (j : Nat) (base : List String) (line : String) : Except Filing Filing := do
  let f ← f.ready j base line
  let f ← f.opened j base
  .ok (f.append j line)

/-- What is said of an entry that is lost. -/
def lostText : String := "--- Logging error ---\n<detail>\n"

/-- An entry passed to the sink with the given number. -/
def passTo (e : Entry) (f : Filing) (j : Nat) : Filing :=
  match f.desk.sinks[j]? with
  | some ⟨level, .file base stream⟩ =>
    if f.desk.takes e ⟨level, .file base stream⟩ then
      match f.emit j base (e.line false) with
      | .ok f => f
      | .error f => { f with complaints := f.complaints ++ lostText }
    else f
  | _ => f

end Filing

namespace Desk

/-- The desk and the files after an entry. -/
def filed (d : Desk) (t : FileTree) (e : Entry) : Filing :=
  (List.range d.sinks.length).foldl (Filing.passTo e) { desk := d, files := t }

/-- The level of the desk and of all its sinks set. -/
def setLevel (d : Desk) (request : LevelRequest) : Except DeskFault Desk :=
  match request.level? with
  | none => .error .unknownLevel
  | some l => .ok { d with level := l, sinks := d.sinks.map fun s => { s with level := l } }

/-- A file opened for entries, which is made if it is not there, and its place. -/
def openFile (t : FileTree) (path : String) : Except DeskFault (List String × FileTree) :=
  let plain := PathText.plain path
  match t.makeParents path with
  | .error stopped => .error (.file stopped)
  | .ok t =>
    match t.filePlace plain with
    | .error fault => .error (.file ⟨fault.failure plain, t⟩)
    | .ok place =>
      .ok (place, if (t.node? place).isSome then t else t.put place (.file []))

/-- A file added to the sinks, at the desk's level unless another is asked for. -/
def addFile (d : Desk) (t : FileTree) (path : String) (request : Option LevelRequest) :
    Except DeskFault (Desk × FileTree) :=
  let level? := match request with
    | none => some d.level
    | some r => r.level?
  match level? with
  | none => .error .unknownLevel
  | some l =>
    match openFile t path with
    | .error fault => .error fault
    | .ok (place, t) => .ok ({ d with sinks := d.sinks ++ [⟨l, .file place (.onFile place)⟩] }, t)

/-- The desk set up, once : a sink on the terminal, and one on a file if a path is given. A desk
whose file cannot be opened keeps the terminal and is not set up. -/
def setUp (d : Desk) (t : FileTree) (coloredTerminal : Bool) (request : LevelRequest)
    (path : Option String) : Desk × Except DeskFault FileTree :=
  if d.isSetUp then (d, .ok t)
  else
    match request.level? with
    | none => (d, .error .unknownLevel)
    | some l =>
      let opened : Desk :=
        { isSetUp := false, level := l, sinks := [⟨l, .terminal coloredTerminal⟩] }
      match path with
      | none | some "" => ({ opened with isSetUp := true }, .ok t)
      | some p =>
        match opened.addFile t p (some (.number l)) with
        | .error fault => (opened, .error fault)
        | .ok (d, t) => ({ d with isSetUp := true }, .ok t)

/-- The usual desk : entries from warnings on, on the terminal. -/
def usual (coloredTerminal : Bool) : Desk :=
  { isSetUp := true
    level := Level.warning
    sinks := [⟨Level.warning, .terminal coloredTerminal⟩] }

/-- The desk ready for use. -/
def ready (d : Desk) (coloredTerminal : Bool) : Desk :=
  if d.isSetUp then d else usual coloredTerminal

end Desk

end JsonShape.Log
