import JsonShape.Shape.Infer

/-!
# Declarations

The records reachable from a root shape are declared in breadth-first order : first those that the
root mentions, then those that their fields mention, each once. The n-th declaration is named by
the table's stem and the number n. `inferValue` infers one value on a fresh table and declares
its records, and `inferDocuments` does so for a stream of documents.
-/

namespace JsonShape

/-- A named record. -/
structure Declaration where
  name : String
  handle : Int
  record : Record
deriving DecidableEq, Repr, Inhabited

/-- A root shape with the table it refers to and the declarations of the records it reaches. -/
structure Outline where
  root : Shape
  table : RecordTable
  declarations : List Declaration
deriving Inhabited

namespace RecordTable

/-- The handles that are not known yet, each once. -/
def fresh (known handles : List Int) : List Int :=
  (handles.filter fun h => !known.contains h).eraseDups

/-- The handles that the fields of a record mention, in field order. -/
def mentioned (r : Record) : List Int :=
  r.flatMap fun f => f.shape.handles

/-- Takes the records of the queue in order and queues what they mention for the first time. -/
def reach (t : RecordTable) : Nat → List Int → List Int → Except Fault (List Int)
  | _, [], known => .ok known
  | 0, _ :: _, _ => .error .endless
  | fuel + 1, handle :: queue, known =>
    match t.get? handle with
    | none => .error .handleOutOfRange
    | some r =>
      let found := fresh known (mentioned r)
      reach t fuel (queue ++ found) (known ++ found)

/-- Handles reachable from a shape, breadth first. A table of `n` records has `2n` handles, so no
more than that many steps are taken before one of them lies outside it. -/
def reachable (t : RecordTable) (root : Shape) : Except Fault (List Int) :=
  let start := fresh [] root.handles
  t.reach (2 * t.size + 1) start start

/-- Declarations of the given handles, numbered from `index` on. -/
def declare (t : RecordTable) : Nat → List Int → Except Fault (List Declaration)
  | _, [] => .ok []
  | index, handle :: rest =>
    match t.get? handle with
    | none => .error .handleOutOfRange
    | some r =>
      match t.declare (index + 1) rest with
      | .error fault => .error fault
      | .ok found => .ok (⟨t.declarationName index, handle, r⟩ :: found)

/-- The records reachable from a shape, named, breadth first. -/
def declarations (t : RecordTable) (root : Shape) : Except Fault (List Declaration) :=
  match t.reachable root with
  | .error fault => .error fault
  | .ok found => t.declare 1 found

end RecordTable

namespace Outline

/-- Name of the record at a handle, if it is declared. -/
def nameOf? (x : Outline) (handle : Int) : Option String :=
  (x.declarations.find? fun d => d.handle == handle).map Declaration.name

end Outline

namespace Session

/-- Declares the records that a shape reaches. -/
def declarations (root : Shape) : Action (List Declaration) := do
  let t := (← get).table
  let found ← MonadExcept.ofExcept (t.declarations root)
  report (.reached found.length t.size)
  pure found

/-- The outline of a root shape over the session's table. -/
def outline (root : Shape) : Action Outline := do
  let found ← declarations root
  pure ⟨root, (← get).table, found⟩

/-- Infers a value and outlines its shape. -/
def inferOutline (o : Options) (v : Value) : Action Outline := do
  let root ← infer o v
  let x ← outline root
  report (.inferred root x.declarations.length x.table.size)
  pure x

/-- A session whose table is empty and names its records as the options say. -/
def fresh (o : Options) : Session :=
  { table := { stem := o.recordPrefix } }

end Session

/-- The outline of one value on a fresh table, with the events reported on the way. -/
def inferValue (o : Options) (v : Value) : Except Fault Outline × List Event :=
  let r := (Session.inferOutline o v).run (Session.fresh o)
  (r.1, r.2.events)

/-- The value that a stream of documents stands for : the only document, or the list of several. -/
def documentsValue : List Value → Option Value
  | [] => none
  | [document] => some document
  | documents => some (.list documents)

end JsonShape
