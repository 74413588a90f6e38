import JsonShape.Incident

/-!
# Files and directories

A `FileTree` holds the files and directories that a run can see, by path from the working
directory. That directory, those above it and the root are always there. A path is walked
component by component : everything before its last component must be a directory. Failures are
those of the operating system, with its error numbers and reasons, and they leave the tree as it
is, but for two things. The directories that were made for a file stay when the file cannot be
written. And a file is emptied before it is written, so it is left with the beginning of its new
content where the disk does not take all of it.
-/

namespace JsonShape

/-- What stands at a path. -/
inductive FileTree.Node where
  | file (content : List UInt8)
  | directory
deriving DecidableEq, Repr, Inhabited

/-- Content that a disk does not take whole : how many bytes of it are stored, with the error number
and the reason for the rest. -/
structure FileTree.Shortage where
  kept : Nat
  number : Int
  reason : String
deriving DecidableEq, Repr, Inhabited

/-- Which content a disk does not take whole at a place, when it holds what it holds. -/
abbrev FileTree.Disk :=
  List (List String × FileTree.Node) → List String → List UInt8 → Option FileTree.Shortage

/-- Files and directories by the components of their paths, and the disk that they are on. -/
structure FileTree where
  nodes : List (List String × FileTree.Node) := []
  disk : FileTree.Disk := fun _ _ _ => none
deriving Inhabited

/-- Why the operating system refuses a path. -/
inductive PathFault where
  | notFound
  | notDirectory
  | isDirectory
  | alreadyExists
deriving DecidableEq, Repr, Inhabited

namespace PathFault

/-- Error number. -/
def number : PathFault → Int
  | .notFound => 2
  | .notDirectory => 20
  | .isDirectory => 21
  | .alreadyExists => 17

/-- Reason in words. -/
def reason : PathFault → String
  | .notFound => "No such file or directory"
  | .notDirectory => "Not a directory"
  | .isDirectory => "Is a directory"
  | .alreadyExists => "File exists"

/-- The failure at a path. -/
def failure (f : PathFault) (path : String) : OsFailure :=
  .atPath f.number f.reason path

end PathFault

/-! ## Paths -/

namespace PathText

/-- The components of a path, without empty ones. A path from the root starts with a slash. -/
def components (path : String) : List String :=
  (if path.toList.head? == some '/' then ["/"] else []) ++
    ((path.toList.splitOn '/').filter (!·.isEmpty)).map String.ofList

/-- The path ends in a slash, so it can only be a directory. -/
def endsInSlash (path : String) : Bool :=
  path.toList.getLast? == some '/'

/-- A path from its components. -/
def ofComponents : List String → String
  | [] => "."
  | "/" :: rest => "/" ++ String.intercalate "/" rest
  | parts => String.intercalate "/" parts

/-- The components without those that stand for the current directory. -/
def plainComponents (path : String) : List String :=
  (components path).filter (· != ".")

/-- The path in its plain form : single slashes, none at the end, no component `.`. -/
def plain (path : String) : String :=
  ofComponents (plainComponents path)

end PathText

namespace FileTree

open PathText

/-- The place is the working directory, one above it, or the root. -/
def isGiven (place : List String) : Bool :=
  place == ["/"] || place.all (· == "..")

/-- The directory above a place; the root is above itself. -/
def above (place : List String) : List String :=
  if place == ["/"] then place
  else if place.all (· == "..") then place ++ [".."]
  else place.dropLast

/-- What stands at the given components. -/
def node? (t : FileTree) (place : List String) : Option Node :=
  if isGiven place then some .directory else t.nodes.lookup place

/-- Where a path leads, from the directory `place` on. -/
def walk (t : FileTree) (place : List String) : List String → Except PathFault (List String)
  | [] => .ok place
  | part :: rest =>
    match t.node? place with
    | none => .error .notFound
    | some (.file _) => .error .notDirectory
    | some .directory =>
      if part == "." then t.walk place rest
      else if part == ".." then t.walk (above place) rest
      else t.walk (place ++ [part]) rest

/-- Where a path leads; the empty path leads nowhere. -/
def resolve (t : FileTree) (path : String) : Except PathFault (List String) :=
  if path.isEmpty then .error .notFound else t.walk [] (components path)

/-- What stands at a path. -/
def find (t : FileTree) (path : String) : Except PathFault Node :=
  match t.resolve path with
  | .error fault => .error fault
  | .ok place =>
    match t.node? place with
    | none => .error .notFound
    | some (.file content) =>
      if endsInSlash path then .error .notDirectory else .ok (.file content)
    | some .directory => .ok .directory

/-- Something stands at the path. -/
def isPresent (t : FileTree) (path : String) : Bool :=
  match t.find path with
  | .ok _ => true
  | .error _ => false

/-- The content of the file at a path. -/
def read (t : FileTree) (path : String) : Except OsFailure (List UInt8) :=
  match t.find path with
  | .error fault => .error (fault.failure path)
  | .ok .directory => .error (PathFault.isDirectory.failure path)
  | .ok (.file content) => .ok content

/-- The tree with a node put at a place. -/
def put (t : FileTree) (place : List String) (n : Node) : FileTree :=
  { t with nodes := t.nodes.filter (fun e => e.1 != place) ++ [(place, n)] }

/-- The tree without what stands at a place. -/
def remove (t : FileTree) (place : List String) : FileTree :=
  { t with nodes := t.nodes.filter fun e => e.1 != place }

/-- Where a place is after what stands at `source`, and all below it, has moved to `target`. -/
def moved (source target place : List String) : List String :=
  if source.isPrefixOf place then target ++ place.drop source.length else place

/-- The tree with what stands at a place, and all below it, moved to another. -/
def move (t : FileTree) (source target : List String) : FileTree :=
  { t with nodes := t.nodes.map fun e => (moved source target e.1, e.2) }

/-- The tree with bytes added to the file at a place, for which there is always room. -/
def append (t : FileTree) (place : List String) (bytes : List UInt8) : FileTree :=
  match t.node? place with
  | some (.file content) => t.put place (.file (content ++ bytes))
  | _ => t

/-- Work that stopped half way : why, and the tree as it is left. -/
structure Unfinished where
  failure : OsFailure
  left : FileTree
deriving Inhabited

/-- The failure of a disk that is short. -/
def Shortage.failure (short : Shortage) : OsFailure :=
  .ofParts none [.int short.number, .text short.reason]

/-- The tree with content stored as the file at a place, as far as the disk takes it. -/
def store (t : FileTree) (place : List String) (content : List UInt8) :
    Except Unfinished FileTree :=
  match t.disk t.nodes place content with
  | none => .ok (t.put place (.file content))
  | some short => .error ⟨short.failure, t.put place (.file (content.take short.kept))⟩

/-- Where a file at the path would stand, whose directory must be there. -/
def filePlace (t : FileTree) (path : String) : Except PathFault (List String) :=
  match t.resolve path with
  | .error fault => .error fault
  | .ok place =>
    match t.node? place.dropLast, t.node? place with
    | some .directory, some .directory => .error .isDirectory
    | some .directory, _ => if endsInSlash path then .error .isDirectory else .ok place
    | some (.file _), _ => .error .notDirectory
    | none, _ => .error .notFound

/-- The tree with a file written at a path. -/
def write (t : FileTree) (path : String) (content : List UInt8) : Except Unfinished FileTree :=
  match t.filePlace path with
  | .error fault => .error ⟨fault.failure path, t⟩
  | .ok place => t.store place content

/-- Makes one directory. -/
def makeDirectory (t : FileTree) (parts : List String) : Except PathFault FileTree :=
  match t.walk [] parts with
  | .error fault => .error fault
  | .ok place =>
    match t.node? place with
    | some _ => .error .alreadyExists
    | none =>
      match t.node? place.dropLast with
      | some .directory => .ok (t.put place .directory)
      | some (.file _) => .error .notDirectory
      | none => .error .notFound

/-- A directory stands at the components. -/
def isDirectory (t : FileTree) (parts : List String) : Bool :=
  match t.walk [] parts with
  | .error _ => false
  | .ok place => t.node? place == some .directory

/-- Makes a directory and those above it; one that is there is kept. The fuel is the number of
components. -/
def makeDirectoriesFrom (t : FileTree) : Nat → List String → Except Unfinished FileTree
  | 0, _ => .ok t
  | fuel + 1, parts =>
    match t.makeDirectory parts with
    | .ok made => .ok made
    | .error .notFound =>
      if parts.isEmpty then .error ⟨PathFault.notFound.failure (ofComponents parts), t⟩
      else
        match t.makeDirectoriesFrom fuel parts.dropLast with
        | .error stopped => .error stopped
        | .ok above =>
          match above.makeDirectory parts with
          | .ok made => .ok made
          | .error fault =>
            if above.isDirectory parts then .ok above
            else .error ⟨fault.failure (ofComponents parts), above⟩
    | .error fault =>
      if t.isDirectory parts then .ok t else .error ⟨fault.failure (ofComponents parts), t⟩

/-- Makes the directory that a file at the path needs. -/
def makeParents (t : FileTree) (path : String) : Except Unfinished FileTree :=
  let parts := (plainComponents path).dropLast
  t.makeDirectoriesFrom (parts.length + 1) parts

/-- The tree with a file written at a path, and the directories that it needs. -/
def writeWithParents (t : FileTree) (path : String) (content : List UInt8) :
    Except Unfinished FileTree :=
  match t.makeParents path with
  | .error stopped => .error stopped
  | .ok made => made.write path content

end FileTree

end JsonShape
