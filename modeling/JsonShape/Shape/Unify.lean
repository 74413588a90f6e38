import JsonShape.Shape.Session

/-!
# Unification

`Session.unify` gives the least shape that describes the values of two shapes. The rules are
tried in order : `any` with anything is `any`; equal shapes stay; `undefined` gives way; optional
marks are set aside and put back; the two numbers give `float64`; a number with a string gives
`string`; arrays unify their elements; records merge; and everything else is `any`.

Records merge field by field. The left record's fields come first, each keeping its key. A field
that only one side has is marked optional where the options ask for it.

Unification descends through records by their handles. On a table whose records mention only
earlier handles it ends by itself; the depth allowed by `unifyDepth` is more than the number of
pairs of shapes it could meet, so only records that refer to each other in a circle use it up.
-/

namespace JsonShape

/-- Shape of a field that only one of two merged records has. -/
def Shape.alone (o : Options) (s : Shape) : Shape :=
  if o.optionalFields then s.markOptional else s

namespace RecordOf

variable {α : Type}

/-- Sets a field by its name : a name that is there keeps its place, a new one comes last. -/
def put (fields : RecordOf α) (f : FieldOf α) : RecordOf α :=
  if fields.any fun g => g.name == f.name then
    fields.map fun g => if g.name == f.name then f else g
  else fields ++ [f]

/-- One field for each name, the last one given, in order of first appearance. -/
def byName (fields : RecordOf α) : RecordOf α :=
  fields.foldl put []

/-- Marks the fields of `merged` that `left` has and `right` has not. -/
def markMissing (alone : α → α) (left right merged : RecordOf α) : RecordOf α :=
  merged.map fun f =>
    if left.names.contains f.name && !right.names.contains f.name then f.map alone else f

/-- Merges the fields of the right record, one after the other, into those merged so far. -/
def mergeRight {m : Type → Type} [Monad m] (alone : α → α) (join : α → α → m α) :
    RecordOf α → RecordOf α → m (RecordOf α)
  | merged, [] => pure merged
  | merged, f :: rest =>
    match merged.find? f.name with
    | none => mergeRight alone join (merged ++ [f.map alone]) rest
    | some g => do
      let shape ← join g.shape f.shape
      mergeRight alone join (merged.put ⟨f.name, g.key, shape⟩) rest

/-- The fields that two records merge to : `join` combines the descriptions of shared fields, and
`alone` marks those of the others. -/
def merge {m : Type → Type} [Monad m] (alone : α → α) (join : α → α → m α)
    (left right : RecordOf α) : m (RecordOf α) := do
  let merged ← mergeRight alone join left.byName right
  pure (markMissing alone left right merged)

end RecordOf

namespace Session

/-- The record that two records merge to, the shapes of shared fields combined by `join`. -/
def mergeRecords (o : Options) (join : Shape → Shape → Action Shape) (a b : Int) :
    Action Shape := do
  let left ← record a
  let right ← record b
  let merged ← RecordOf.merge (Shape.alone o) join left right
  intern merged

/-- Unification of two shapes of which neither gives way to the other, their parts combined by
`join`. -/
def unifyParts (o : Options) (join : Shape → Shape → Action Shape) : Shape → Shape → Action Shape
  | .array x, .array y => do
    let element ← join x y
    pure (.array element)
  | .record i, .record j => mergeRecords o join i j
  | a, b => do
    report (.noCommonShape a b)
    pure .any

/-- The first rule that applies, with `join` for what is inside the shapes. -/
def unifyStep (o : Options) (join : Shape → Shape → Action Shape) (a b : Shape) : Action Shape :=
  if a = .any ∨ b = .any then pure .any
  else if a = b then pure a
  else if a = .undefined then pure b
  else if b = .undefined then pure a
  else if a.isOptional || b.isOptional then do
    let inner ← join a.dropOptional b.dropOptional
    pure inner.markOptional
  else if a.isNumeric && b.isNumeric then pure .float64
  else if (a.isNumeric && b == .string) || (a == .string && b.isNumeric) then pure .string
  else unifyParts o join a b

/-- Unification to a bounded depth. -/
def unifyWithin (o : Options) : Nat → Shape → Shape → Action Shape
  | 0, _, _ => throw .endless
  | depth + 1, a, b => unifyStep o (unifyWithin o depth) a b

/-- Number of constructors in the shapes of a record. -/
def recordWeight (r : Record) : Nat :=
  r.foldr (fun f n => f.shape.size + n) 0

/-- Number of constructors in two shapes and in all shapes of the table. -/
def weight (t : RecordTable) (a b : Shape) : Nat :=
  a.size + b.size + t.records.foldr (fun r n => recordWeight r + n) 0

/-- A depth beyond every descent that ends. -/
def unifyDepth (t : RecordTable) (a b : Shape) : Nat :=
  (weight t a b + 2) * (weight t a b + 2)

/-- The least shape that describes the values of both shapes. -/
def unify (o : Options) (a b : Shape) : Action Shape := do
  unifyWithin o (unifyDepth (← get).table a b) a b

end Session

end JsonShape
