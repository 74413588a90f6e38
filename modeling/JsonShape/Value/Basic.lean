import JsonShape.Number.Binary64

/-!
# Values

A `Value` is what a document, a settings file or a caller can hand over. Decoded documents use
only null, booleans, whole numbers, decimals, texts, lists and objects with text keys. The other
forms come from callers and settings files : floating-point numbers, tuples, keys that are no
texts, and values known only by the name of their type.

Equal keys of an object are found by `Value.sameKey` : numbers are compared by value whatever
their form, so the boolean true and the numbers 1 and 1.0 are one key.
-/

namespace JsonShape

/-- A value that is neither JSON nor a number : the name of its type, its two written forms, and
whether it holds nothing. -/
structure Foreign where
  typeName : String
  shown : String
  quoted : String
  isEmpty : Bool := false
deriving DecidableEq, Repr, Inhabited

/-- A dynamic value. -/
inductive Value where
  | null
  | bool (b : Bool)
  | int (n : Int)
  | decimal (d : Decimal)
  | float (x : Binary64)
  | text (s : String)
  | list (items : List Value)
  | tuple (items : List Value)
  | object (entries : List (Value × Value))
  | foreign (f : Foreign)
deriving Inhabited

namespace Value

/-- Normal form of the number that a value is, if it is a finite one. -/
def number? : Value → Option Decimal
  | .bool b => some (Decimal.normal ⟨false, if b then 1 else 0, 0⟩)
  | .int n => some (Decimal.normal ⟨n < 0, n.natAbs, 0⟩)
  | .decimal d => some d.normal
  | .float x => x.toDecimal?.map Decimal.normal
  | _ => none

mutual

/-- The two values are one key of an object. -/
def sameKey : Value → Value → Bool
  | .null, .null => true
  | .text s, .text t => s == t
  | .foreign f, .foreign g => f == g
  | .tuple xs, .tuple ys => sameKeys xs ys
  | .float (.infinite m), .float (.infinite n) => m == n
  | v, w =>
    match v.number?, w.number? with
    | some d, some e => d == e
    | _, _ => false

/-- The two lists agree as keys, item by item. -/
def sameKeys : List Value → List Value → Bool
  | [], [] => true
  | v :: vs, w :: ws => sameKey v w && sameKeys vs ws
  | _, _ => false

end

/-- Sets a key : a key that is there keeps its place and takes the new value, a new one comes
last. -/
def setEntry (entries : List (Value × Value)) (key value : Value) : List (Value × Value) :=
  if entries.any fun e => e.1.sameKey key then
    entries.map fun e => if e.1.sameKey key then (e.1, value) else e
  else entries ++ [(key, value)]

/-- The object with the given entries, set in order. -/
def ofEntries (entries : List (Value × Value)) : Value :=
  .object (entries.foldl (fun acc e => setEntry acc e.1 e.2) [])

end Value

end JsonShape
