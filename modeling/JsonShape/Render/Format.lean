import JsonShape.Render.Go
import JsonShape.Render.JsonSchema
import JsonShape.Render.Pydantic

/-!
# Output formats

Declarations are written in one of three formats, chosen by name. `render` writes an outline and,
where the format has a check of its own and it is asked for, tests the text.
-/

namespace JsonShape

/-- A language that declarations are written in. -/
inductive OutputFormat where
  | go
  | pydantic
  | jsonSchema
deriving DecidableEq, Repr, Inhabited

namespace OutputFormat

/-- The formats, in the order in which help lists them. -/
def all : List OutputFormat := [.go, .pydantic, .jsonSchema]

/-- Name of a format. -/
def name : OutputFormat → String
  | .go => "go"
  | .pydantic => "pydantic"
  | .jsonSchema => "json_schema"

/-- The format of that name. -/
def ofName? (s : String) : Option OutputFormat :=
  all.find? fun f => f.name == s

/-- One line on a format. -/
def description : OutputFormat → String
  | .go => "Go type declarations with encoding/json struct tags"
  | .pydantic => "pydantic v2 models with aliases for the original JSON keys"
  | .jsonSchema => "JSON Schema (draft-07) with records under definitions"

/-- One line on the format of that name. -/
def describe (s : String) : String :=
  ((ofName? s).map description).getD "Unknown format"

/-- The declarations of an outline. -/
def write (f : OutputFormat) (x : Outline) : Except RenderFault String :=
  match f with
  | .go => Go.write x
  | .pydantic => Pydantic.write x
  | .jsonSchema => JsonSchema.write x

/-- Tests a text, where the format has a test. -/
def check (f : OutputFormat) (text : String) : Except RenderFault Unit :=
  match f with
  | .jsonSchema =>
    match JsonSchema.check text with
    | .ok () => .ok ()
    | .error fault => .error (.invalidSchema fault.message)
  | _ => .ok ()

end OutputFormat

/-- Writes an outline in the format of that name, with the events reported on the way. -/
def render (format : String) (validate : Bool) (x : Outline) :
    Except RenderFault String × List Event :=
  match OutputFormat.ofName? format with
  | none => (.error (.unsupportedFormat format), [])
  | some f =>
    match f.write x with
    | .error fault => (.error fault, [])
    | .ok text =>
      let events := [Event.rendered x.declarations.length format]
      if validate then
        match f.check text with
        | .error fault => (.error fault, events)
        | .ok () => (.ok text, events)
      else (.ok text, events)

end JsonShape
