import JsonShape.Json.Printer
import JsonShape.Render.Fault
import JsonShape.Shape.Declaration
import JsonShape.Text.IdentifierText

/-!
# Pydantic models

An outline becomes a module with one model class for each declared record and an alias for the
root type. A class is written before the classes whose fields mention it : `dependencyOrder` visits
the declarations depth first and lists each after those it mentions. A field has its identifier,
its annotation and an alias that holds the JSON key in printable ASCII; an optional field has a
default.

A field name must be an identifier, no keyword, and different from every class and the root alias.
-/

namespace JsonShape.Pydantic

open Text

/-- Reserved words. -/
def keywords : List String :=
  ["False", "None", "True", "and", "as", "assert", "async", "await", "break", "class", "continue",
    "def", "del", "elif", "else", "except", "finally", "for", "from", "global", "if", "import",
    "in", "is", "lambda", "nonlocal", "not", "or", "pass", "raise", "return", "try", "while",
    "with", "yield"]

/-- Name of the alias for the root type. -/
def rootAlias : String := "Data"

/-- The name can name a field beside classes of the given names. -/
def checkName (classNames : List String) (name : String) : Except RenderFault Unit :=
  if !isIdentifier name || keywords.contains name then .error (.invalidPythonName name)
  else if classNames.contains name || name == rootAlias then .error (.shadowedModelName name)
  else .ok ()

/-- The annotation of a shape. -/
def typeText (x : Outline) : Shape → Except RenderFault String
  | .any => .ok "typing.Any"
  | .undefined => .ok "typing.Any"
  | .bool => .ok "bool"
  | .int64 => .ok "int"
  | .float64 => .ok "float"
  | .string => .ok "str"
  | .record handle =>
    match x.nameOf? handle with
    | some name => .ok name
    | none => .error (.undeclared handle)
  | .array element =>
    match typeText x element with
    | .ok t => .ok ("list[" ++ t ++ "]")
    | .error fault => .error fault
  | .optional inner =>
    match typeText x inner with
    | .ok t => .ok ("typing.Optional[" ++ t ++ "]")
    | .error fault => .error fault

/-- Handles visited so far, and the declarations listed so far. -/
structure Progress where
  visited : List Int := []
  listed : List Declaration := []

/-- Lists a declaration after those it mentions, unless it was visited before. -/
def visit (declarations : List Declaration) : Nat → Progress → Int → Progress
  | 0, p, _ => p
  | fuel + 1, p, handle =>
    if p.visited.contains handle then p
    else
      match declarations.find? fun d => d.handle == handle with
      | none => p
      | some d =>
        let q := (RecordTable.mentioned d.record).foldl (visit declarations fuel)
          { p with visited := handle :: p.visited }
        { q with listed := q.listed ++ [d] }

/-- The declarations, each after those it mentions. A descent visits every declaration at most
once, so it is no deeper than their number. -/
def dependencyOrder (declarations : List Declaration) : List Declaration :=
  ((declarations.map Declaration.handle).foldl (visit declarations (declarations.length + 1))
    {}).listed

/-- The line of a field. -/
def fieldLine (x : Outline) (classNames : List String) (f : Field) :
    Except RenderFault String := do
  checkName classNames f.name
  let annotation ← typeText x f.shape
  let default := if f.shape.isOptional then "default=None, " else ""
  pure ("    " ++ f.name ++ ": " ++ annotation ++ " = pydantic.Field(" ++ default ++ "alias=" ++
    Json.asciiString f.key ++ ")")

/-- The lines of a class, after two empty ones. -/
def classLines (x : Outline) (classNames : List String) (d : Declaration) :
    Except RenderFault (List String) := do
  let fields ← d.record.mapM (fieldLine x classNames)
  pure (["", "", "class " ++ d.name ++ "(pydantic.BaseModel):"] ++ fields)

/-- The first lines of the module. -/
def header : List String :=
  ["# Generated by struct-infer.", "", "import typing", "", "import pydantic"]

/-- The models of an outline. -/
def write (x : Outline) : Except RenderFault String := do
  let classNames := x.declarations.map Declaration.name
  let classes ← (dependencyOrder x.declarations).mapM (classLines x classNames)
  let root ← typeText x x.root
  let lines := header ++ classes.flatten ++ ["", "", rootAlias ++ " = " ++ root]
  pure (String.join (lines.map (· ++ "\n")))

end JsonShape.Pydantic
