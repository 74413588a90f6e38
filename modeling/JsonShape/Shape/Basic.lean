/-!
# Shapes

A `Shape` describes the values seen at one place of the input. `undefined` is what nothing but
nulls and empty objects leave, `any` is what no single description fits, and between them stand
the scalars, arrays and records. A record is named by its handle in the table of the run.
`optional` marks a field that some of the merged objects lacked.
-/

namespace JsonShape

/-- A structural type. -/
inductive Shape where
  | any
  | undefined
  | bool
  | int64
  | float64
  | string
  | array (element : Shape)
  | record (handle : Int)
  | optional (inner : Shape)
deriving DecidableEq, Repr, Inhabited

namespace Shape

/-- The shape as messages write it. -/
def text : Shape → String
  | .any => "any"
  | .undefined => "undefined"
  | .bool => "bool"
  | .int64 => "int64"
  | .float64 => "float64"
  | .string => "string"
  | .array element => "[" ++ element.text ++ "]"
  | .record handle => "record#" ++ toString handle
  | .optional inner => "optional(" ++ inner.text ++ ")"

/-- The shape is marked optional. -/
def isOptional : Shape → Bool
  | .optional _ => true
  | _ => false

/-- One of the two number shapes. -/
def isNumeric : Shape → Bool
  | .int64 | .float64 => true
  | _ => false

/-- Marks a shape optional; `any`, `undefined` and optional shapes stay as they are. -/
def markOptional : Shape → Shape
  | .any => .any
  | .undefined => .undefined
  | .optional inner => .optional inner
  | s => .optional s

/-- The shape under an optional mark. -/
def dropOptional : Shape → Shape
  | .optional inner => inner
  | s => s

/-- The record handles in a shape, not those inside the records. -/
def handles : Shape → List Int
  | .record handle => [handle]
  | .array element => element.handles
  | .optional inner => inner.handles
  | _ => []

/-- Number of constructors in a shape. -/
def size : Shape → Nat
  | .array element => element.size + 1
  | .optional inner => inner.size + 1
  | _ => 1

end Shape

end JsonShape
