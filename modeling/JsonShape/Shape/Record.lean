import JsonShape.Shape.Basic

/-!
# Records and their table

A record is a list of fields, and the table holds every record of a run once, at a handle given
in order of first appearance. Fields are sorted by name before a record is looked up, so the
order of keys in an object does not matter. The table only ever grows at its end.

The table keeps what it holds twice. The records in order give the record at a handle, and a
dictionary gives the handle of a record.

Handles are whole numbers; a negative one counts from the end of the table.
-/

namespace JsonShape

/-- A field : its identifier, the JSON key it comes from, and what describes its values. -/
structure FieldOf (α : Type) where
  name : String
  key : String
  shape : α
deriving DecidableEq, Repr, Inhabited

/-- A field whose values are described by a shape. -/
abbrev Field := FieldOf Shape

/-- The field with its description changed. -/
def FieldOf.map {α β : Type} (g : α → β) (f : FieldOf α) : FieldOf β :=
  ⟨f.name, f.key, g f.shape⟩

/-- Fields whose values are described by an `α`. -/
abbrev RecordOf (α : Type) := List (FieldOf α)

/-- The fields of a record. -/
abbrev Record := RecordOf Shape

namespace RecordOf

variable {α : Type}

/-- Names of the fields in order. -/
def names (r : RecordOf α) : List String :=
  r.map FieldOf.name

/-- The first field of that name. -/
def find? (r : RecordOf α) (name : String) : Option (FieldOf α) :=
  List.find? (fun f => f.name == name) r

/-- The fields sorted by name, equal names in their given order. -/
def sorted (fields : RecordOf α) : RecordOf α :=
  fields.mergeSort fun f g => f.name ≤ g.name

end RecordOf

/-- The records of a run, by handle. -/
structure RecordTable where
  /-- What the name of every declared record starts with. -/
  stem : String := "S"
  records : List Record := []
  /-- The handle of each record, the entry set last in front. -/
  ids : List (Record × Nat) := []
deriving DecidableEq, Repr, Inhabited

namespace RecordTable

/-- Number of records. -/
def size (t : RecordTable) : Nat :=
  t.records.length

/-- The record at a handle; a negative handle counts from the end. -/
def get? (t : RecordTable) (handle : Int) : Option Record :=
  if 0 ≤ handle then t.records[handle.toNat]?
  else if 0 ≤ handle + t.size then t.records[(handle + t.size).toNat]?
  else none

/-- The handle of a record that is in the table, its fields taken as they stand. -/
def lookup (t : RecordTable) (r : Record) : Option Nat :=
  t.ids.lookup r

/-- The handle was given out by this table. -/
def hasHandle (t : RecordTable) (handle : Int) : Bool :=
  0 ≤ handle && handle < t.size

/-- The table with a record added at the end, and its handle set in the dictionary. -/
def push (t : RecordTable) (r : Record) : RecordTable :=
  { t with records := t.records ++ [r], ids := (r, t.size) :: t.ids }

/-- Digits of a declaration's number, at least three. -/
def numberText (index : Int) : String :=
  let digits := (toString index.natAbs).toList
  let width := if index < 0 then 2 else 3
  let padded := List.replicate (width - digits.length) '0' ++ digits
  String.ofList (if index < 0 then '-' :: padded else padded)

/-- Name of the declaration with that number. -/
def declarationName (t : RecordTable) (index : Int) : String :=
  t.stem ++ numberText index

end RecordTable

end JsonShape
