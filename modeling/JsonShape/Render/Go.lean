import JsonShape.Render.Fault
import JsonShape.Shape.Declaration
import JsonShape.Text.IdentifierText

/-!
# Go declarations

An outline becomes a variable of the root type and one struct type for each declared record. A
field is written with its identifier, its type and a tag that holds the JSON key; names and types
are padded to columns. Records are pointers and arrays are slices, so an optional one needs no
further mark; every other optional field is a pointer.

A field name must be an exported identifier and a key must fit a tag. The first field that falls
short decides the fault.
-/

namespace JsonShape.Go

open Text

/-- Reserved words. -/
def keywords : List String :=
  ["break", "case", "chan", "const", "continue", "default", "defer", "else", "fallthrough", "for",
    "func", "go", "goto", "if", "import", "interface", "map", "package", "range", "return",
    "select", "struct", "switch", "type", "var"]

/-- Punctuation that a tag may hold besides letters and digits. -/
def tagPunctuation : List Char :=
  "!#$%&()*+-./:;<=>?@[]^_\x7b|\x7d~ ".toList

/-- The name can name a field that the JSON package sees. -/
def checkName (name : String) : Except RenderFault Unit :=
  if !isIdentifier name || keywords.contains name then .error (.invalidGoName name)
  else if (name.toList.head?.map isUpperCase).getD false then .ok ()
  else .error (.unexportedGoName name)

/-- The character may stand in a tag. -/
def isTagChar (c : Char) : Bool :=
  tagPunctuation.contains c || isLetter c || isDigit c

/-- The tag that binds a field to a key. -/
def tag (key : String) : Except RenderFault String :=
  if key.isEmpty || !key.toList.all isTagChar then .error (.untaggableKey key)
  else .ok ("`json:\"" ++ key ++ ",omitempty\"`")

/-- A pointer is not needed to mark such a shape optional. -/
def isNilable : Shape → Bool
  | .record _ | .array _ => true
  | _ => false

/-- The Go type of a shape. -/
def typeText (x : Outline) : Shape → Except RenderFault String
  | .any => .ok "any"
  | .undefined => .ok "struct\x7b\x7d"
  | .bool => .ok "bool"
  | .int64 => .ok "int64"
  | .float64 => .ok "float64"
  | .string => .ok "string"
  | .record handle =>
    match x.nameOf? handle with
    | some name => .ok ("*" ++ name)
    | none => .error (.undeclared handle)
  | .array element =>
    match typeText x element with
    | .ok t => .ok ("[]" ++ t)
    | .error fault => .error fault
  | .optional inner =>
    match typeText x inner with
    | .ok t => .ok (if isNilable inner then t else "*" ++ t)
    | .error fault => .error fault

/-- The columns of one field : name, type and tag. -/
structure Row where
  name : String
  type : String
  tag : String

/-- The columns of a field. -/
def row (x : Outline) (f : Field) : Except RenderFault Row := do
  checkName f.name
  let type ← typeText x f.shape
  let tag ← tag f.key
  pure ⟨f.name, type, tag⟩

/-- Length of the longest text. -/
def width (texts : List String) : Nat :=
  texts.foldl (fun w s => max w s.length) 0

/-- The text with spaces after it up to a width. -/
def padded (w : Nat) (s : String) : String :=
  s ++ String.ofList (List.replicate (w - s.length) ' ')

/-- The lines of a declaration, after an empty one. -/
def declarationLines (x : Outline) (d : Declaration) : Except RenderFault (List String) := do
  let rows ← d.record.mapM (row x)
  if rows.isEmpty then throw .emptyRecord
  let nameWidth := width (rows.map Row.name)
  let typeWidth := width (rows.map Row.type)
  pure (["", "type " ++ d.name ++ " struct \x7b"] ++
    rows.map (fun r =>
      "\t" ++ padded nameWidth r.name ++ " " ++ padded typeWidth r.type ++ " " ++ r.tag) ++
    ["\x7d"])

/-- Type of the variable : where nothing was observed, an interface. -/
def rootType (x : Outline) : Except RenderFault String :=
  if x.root = .undefined then .ok "any" else typeText x x.root

/-- Texts, each as a line with its end. -/
def unlines (lines : List String) : String :=
  String.join (lines.map (· ++ "\n"))

/-- The declarations of an outline. -/
def write (x : Outline) : Except RenderFault String := do
  let root ← rootType x
  let blocks ← x.declarations.mapM (declarationLines x)
  pure (unlines (("var data " ++ root ++ " // Unmarshal into this type.") :: blocks.flatten))

end JsonShape.Go
