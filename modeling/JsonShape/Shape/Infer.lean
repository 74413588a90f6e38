import JsonShape.Identifier
import JsonShape.Number.Literal
import JsonShape.Shape.Unify

/-!
# Inference

`Session.infer` gives the shape of a value. Null and the empty object are `undefined`; a whole
number is `int64` if it fits 64 bits with a sign and `float64` otherwise; a text that is a number
literal counts as that number where the options ask for it. An object becomes a record, and an
array folds the shapes of its items with unification from left to right, until they are `any`.

A value that has no precise shape becomes `any` : a foreign value, an object with a key that is no
text, and an object two of whose keys become one identifier. In such an object nothing is visited.
-/

namespace JsonShape

/-- Shape of a whole number. -/
def integerShape (n : Int) : Shape :=
  if -0x8000000000000000 ≤ n ∧ n ≤ 0x7FFFFFFFFFFFFFFF then .int64 else .float64

/-- Longest integer literal in a text that can be read, in digits. -/
def maxIntegerDigits : Nat := 4300

/-- A fault in one line. -/
def Fault.text : Fault → String
  | .integerTooLong digits =>
    "Exceeds the limit (" ++ toString maxIntegerDigits ++
      " digits) for integer string conversion: value has " ++ toString digits ++
      " digits; use sys.set_int_max_str_digits() to increase the limit"
  | .handleOutOfRange => "list index out of range"
  | .endless => "maximum recursion depth exceeded"

/-- Shape of the number literal that a text is, if it is one. -/
def numberTextShape (s : String) : Except Fault (Option Shape) :=
  match NumberLiteral.ofText? s with
  | none => .ok none
  | some l =>
    if l.isInteger then
      if l.whole.length > maxIntegerDigits then .error (.integerTooLong l.whole.length)
      else .ok (some (integerShape l.toInt))
    else .ok (some .float64)

/-- Shape of a text. -/
def textShape (o : Options) (s : String) : Except Fault Shape :=
  if o.coerceNumericStrings then
    match numberTextShape s with
    | .error fault => .error fault
    | .ok found => .ok (found.getD .string)
  else .ok .string

/-- Why keys cannot name the fields of a record, where `seen` holds the identifiers and keys
before them. -/
def keyProblem (seen : List (String × String)) : List Value → Option Event
  | [] => none
  | .text key :: rest =>
    match seen.lookup (identifierOf key) with
    | some first => some (.keysCollide first key (identifierOf key))
    | none => keyProblem ((identifierOf key, key) :: seen) rest
  | key :: _ => some (.keyNotText key)

namespace Session

mutual

/-- The shape of a value. -/
def infer (o : Options) : Value → Action Shape
  | .null => pure .undefined
  | .bool _ => pure .bool
  | .int n => pure (integerShape n)
  | .decimal _ => pure .float64
  | .float _ => pure .float64
  | .text s => MonadExcept.ofExcept (textShape o s)
  | .list items => do
    let element ← inferItems o items.length 0 .undefined items
    pure (.array element)
  | .tuple items => do
    let element ← inferItems o items.length 0 .undefined items
    pure (.array element)
  | .object entries =>
    if entries.isEmpty then pure .undefined
    else
      match keyProblem [] (entries.map Prod.fst) with
      | some problem => do
        report problem
        pure .any
      | none => do
        let fields ← inferFields o entries
        intern fields
  | .foreign f => do
    report (.unsupportedValue f.typeName)
    pure .any

/-- Unifies the shapes of the items from `index` on into the shape found so far, until it is
`any`. -/
def inferItems (o : Options) (count index : Nat) (found : Shape) : List Value → Action Shape
  | [] => pure found
  | item :: rest => do
    let shape ← infer o item
    let element ← unify o found shape
    if element = .any then
      report (.elementWidened index count)
      pure .any
    else inferItems o count (index + 1) element rest

/-- One field for each entry with a text key. -/
def inferFields (o : Options) : List (Value × Value) → Action (List Field)
  | [] => pure []
  | (key, value) :: rest =>
    match key with
    | .text k => do
      let shape ← infer o value
      let fields ← inferFields o rest
      pure (⟨identifierOf k, k, shape⟩ :: fields)
    | _ => inferFields o rest

end

end Session

end JsonShape
