import JsonShape.Document.Decode
import JsonShape.Event
import JsonShape.World.FileTree

/-!
# Input of a run

Input comes from a file or from standard input, for which the path `-` stands. `loadDocuments`
reads and decodes it and reports how many documents there were.
-/

namespace JsonShape.Document

/-- What standard input gives. -/
inductive StandardInput where
  /-- Bytes, and whether the first of them can be looked at before they are read. -/
  | bytes (content : List UInt8) (canPeek : Bool)
  /-- Reading fails. -/
  | broken (failure : OsFailure)
  /-- The user interrupts the run. -/
  | interrupted
deriving Inhabited

/-- Why there is no input. -/
inductive LoadFault where
  | decode (fault : DecodeFault)
  | file (failure : OsFailure)
  | interrupted
deriving Inhabited

/-- The report of a fault, where it has one. -/
def LoadFault.report? : LoadFault → Option Report
  | .decode fault => fault.report?
  | .file failure => some failure.report
  | .interrupted => none

/-- The path that stands for standard input. -/
def standardPath : String := "-"

/-- The documents at a path. -/
def load (tree : FileTree) (input : StandardInput) (path : String) :
    Except LoadFault (List Value) :=
  if path == standardPath then
    match input with
    | .interrupted => .error .interrupted
    | .broken failure => .error (.file failure)
    | .bytes content canPeek => (decode standardPath canPeek content).mapError .decode
  else
    match tree.read path with
    | .error failure => .error (.file failure)
    | .ok content => (decode path true content).mapError .decode

/-- The documents at a path, with the event that counts them. -/
def loadDocuments (tree : FileTree) (input : StandardInput) (path : String) :
    Except LoadFault (List Value) × List Event :=
  match load tree input path with
  | .error fault => (.error fault, [])
  | .ok documents => (.ok documents, [.decoded documents.length path])

end JsonShape.Document
