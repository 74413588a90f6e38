import JsonShape.Json.MetaSchema
import JsonShape.Json.Printer
import JsonShape.Json.Reader
import JsonShape.Render.Fault
import JsonShape.Shape.Declaration

/-!
# JSON Schema

An outline becomes a schema of draft 7 with the declared records under `definitions`. A record's
definition lists its properties by JSON key and requires those that are not optional. Where the
root is a record, its reference stands in `allOf`, since keywords beside a reference are ignored.

`check` reads a text back and tests it against the draft's own schema.
-/

namespace JsonShape.JsonSchema

/-- The version that a schema names. -/
def version : String := "http://json-schema.org/draft-07/schema#"

/-- The schema of a shape. -/
def schemaOf (x : Outline) : Shape → Except RenderFault (List (String × Json))
  | .any => .ok []
  | .undefined => .ok [("$comment", .string "no values observed")]
  | .bool => .ok [("type", .string "boolean")]
  | .int64 => .ok [("type", .string "integer")]
  | .float64 => .ok [("type", .string "number")]
  | .string => .ok [("type", .string "string")]
  | .record handle =>
    match x.nameOf? handle with
    | some name => .ok [("$ref", .string ("#/definitions/" ++ name))]
    | none => .error (.undeclared handle)
  | .array element =>
    match schemaOf x element with
    | .ok entries => .ok [("type", .string "array"), ("items", .object entries)]
    | .error fault => .error fault
  | .optional inner => schemaOf x inner

/-- The property of a field. -/
def property (x : Outline) (f : Field) : Except RenderFault (String × Json) := do
  let entries ← schemaOf x f.shape
  pure (f.key, .object entries)

/-- The keys of the fields that are not optional. -/
def requiredKeys (r : Record) : List String :=
  (r.filter fun f => !f.shape.isOptional).map FieldOf.key

/-- The definition of a record. -/
def definition (x : Outline) (d : Declaration) : Except RenderFault (String × Json) := do
  let properties ← d.record.mapM (property x)
  let required := requiredKeys d.record
  let entries := [("type", .string "object"), ("properties", Json.ofEntries properties)] ++
    (if required.isEmpty then [] else [("required", Json.array (required.map Json.string))])
  pure (d.name, .object entries)

/-- What the schema says of the root. -/
def rootEntries (entries : List (String × Json)) : List (String × Json) :=
  if entries.any fun e => e.1 == "$ref" then [("allOf", .array [.object entries])] else entries

/-- The schema of an outline. -/
def build (x : Outline) : Except RenderFault Json := do
  let definitions ← x.declarations.mapM (definition x)
  let root ← schemaOf x x.root
  pure (.object ([("$schema", .string version), ("title", .string "data")] ++ rootEntries root ++
    (if definitions.isEmpty then [] else [("definitions", Json.ofEntries definitions)])))

/-- The schema of an outline as a text. -/
def write (x : Outline) : Except RenderFault String := do
  pure ((← build x).print ++ "\n")

/-- What is wrong with a schema's text. -/
inductive TextFault where
  | invalidJson
  | violation (v : Json.Violation)
  | integerTooLong
deriving DecidableEq, Repr

/-- Tests the text of a schema. -/
def check (text : String) : Except TextFault Unit :=
  match Json.read text with
  | .error .malformed => .error .invalidJson
  | .error .integerTooLong => .error .integerTooLong
  | .ok j =>
    match j.violation? with
    | none => .ok ()
    | some v => .error (.violation v)

/-- Kind of a fault. -/
def TextFault.kind : TextFault → String
  | .invalidJson => "Invalid JSON"
  | .violation _ => "JSON Schema validation error"
  | .integerTooLong => "Integer too long"

/-- The fault in words : its kind and, for a violation, what it is. -/
def TextFault.message (f : TextFault) : String :=
  match f with
  | .violation v => f.kind ++ ": " ++ v.message
  | _ => f.kind

end JsonShape.JsonSchema
