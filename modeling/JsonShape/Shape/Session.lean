import JsonShape.Event
import JsonShape.Shape.Record

/-!
# Sessions

Inference and unification work on a session : the record table and the events reported so far.
An `Action` reads and extends a session and gives a result or a fault; what it did to the session
before a fault stays done. `intern` is the only action that changes the table.
-/

namespace JsonShape

/-- How inference is to go about its work. -/
structure Options where
  /-- Mark fields that some of the merged objects lack. -/
  optionalFields : Bool := false
  /-- Take texts that are number literals for numbers. -/
  coerceNumericStrings : Bool := true
  /-- What the name of every declared record starts with. -/
  recordPrefix : String := "S"
deriving DecidableEq, Repr, Inhabited

/-- Why an action has no result. -/
inductive Fault where
  /-- A text is an integer literal with so many digits, which are more than can be read. -/
  | integerTooLong (digits : Nat)
  /-- A record handle lies outside the table. -/
  | handleOutOfRange
  /-- The records refer to each other in a circle that unification would follow without end. -/
  | endless
deriving DecidableEq, Repr, Inhabited

/-- A record table in use, with the events reported so far. -/
structure Session where
  table : RecordTable := {}
  events : List Event := []
deriving Inhabited

/-- Work on a session that gives a result or a fault. -/
abbrev Action := ExceptT Fault (StateM Session)

namespace Session

/-- Reports an event. -/
def report (e : Event) : Action Unit :=
  modify fun s => { s with events := s.events ++ [e] }

/-- The record at a handle. -/
def record (handle : Int) : Action Record := do
  match (← get).table.get? handle with
  | some r => pure r
  | none => throw .handleOutOfRange

/-- The handle of the record with these fields, which is added if it is new. -/
def intern (fields : List Field) : Action Shape := do
  let r := RecordOf.sorted fields
  let t := (← get).table
  match t.lookup r with
  | some handle => pure (.record handle)
  | none =>
    modify fun s => { s with table := t.push r }
    report (.interned t.size r.names)
    pure (.record t.size)

end Session

end JsonShape
