import JsonShape.Value.Basic
import JsonShape.Text.Quoted

/-!
# Written values

Messages show a value in one of two ways. `Value.shown` writes a text as it stands and
`Value.quoted` in quotes; inside a list, a tuple or an object every value is quoted. The words
for null and the booleans, the brackets and the form of a one-item tuple are the log's and the
error report's own format.
-/

namespace JsonShape.Value

/-- Texts with a comma and a space between them. -/
def commaSeparated (parts : List String) : String :=
  String.intercalate ", " parts

mutual

/-- The value as a log shows it, texts in quotes. -/
def quoted : Value → String
  | .null => "None"
  | .bool b => if b then "True" else "False"
  | .int n => toString n
  | .decimal d => "Decimal('" ++ d.text ++ "')"
  | .float x => x.text
  | .text s => Text.quote s
  | .list items => "[" ++ commaSeparated (quotedList items) ++ "]"
  | .tuple [item] => "(" ++ quoted item ++ ",)"
  | .tuple items => "(" ++ commaSeparated (quotedList items) ++ ")"
  | .object entries => "\x7b" ++ commaSeparated (quotedEntries entries) ++ "\x7d"
  | .foreign f => f.quoted

/-- The items, each quoted. -/
def quotedList : List Value → List String
  | [] => []
  | v :: vs => quoted v :: quotedList vs

/-- The entries, each as key, colon and value. -/
def quotedEntries : List (Value × Value) → List String
  | [] => []
  | (k, v) :: rest => (quoted k ++ ": " ++ quoted v) :: quotedEntries rest

end

/-- The value as a message shows it, a text as it stands. -/
def shown : Value → String
  | .text s => s
  | .decimal d => d.text
  | .foreign f => f.shown
  | v => v.quoted

end JsonShape.Value
