import JsonShape.Yaml.Timestamp

/-!
# Tags

A tag says what a node is. `Tag.ofText` knows the tags of the common schema, and `Tag.ofPlain`
finds the tag of a scalar that was written plain and bears none : words for null and the booleans,
whole numbers in bases two, eight, ten and sixteen or in parts of sixty, numbers with a point,
dates, the merge mark `<<` and the value mark `=`. Everything else is a text.
-/

namespace JsonShape.Yaml

/-- What a node is. -/
inductive Tag where
  | null
  | bool
  | int
  | float
  | binary
  | timestamp
  | pairs
  | set
  | text
  | sequence
  | mapping
  | merge
  | value
  | unknown
deriving DecidableEq, Repr, Inhabited

namespace Tag

/-- What the short handle `!!` stands for. -/
def commonHandle : String := "tag:yaml.org,2002:"

/-- The tags of the common schema by name. -/
def common : List (String × Tag) :=
  [("null", .null), ("bool", .bool), ("int", .int), ("float", .float), ("binary", .binary),
    ("timestamp", .timestamp), ("omap", .pairs), ("pairs", .pairs), ("set", .set), ("str", .text),
    ("seq", .sequence), ("map", .mapping), ("merge", .merge), ("value", .value)]

/-- The tag of that text. -/
def ofText (s : String) : Tag :=
  ((common.find? fun e => commonHandle ++ e.1 == s).map Prod.snd).getD .unknown

/-! ## Plain scalars -/

open Text (isAsciiDigit)

/-- The characters without a sign at their start. -/
def unsigned : List Char → List Char
  | '-' :: rest => rest
  | '+' :: rest => rest
  | cs => cs

/-- A digit or an underscore. -/
def isDigitMark (c : Char) : Bool :=
  isAsciiDigit c || c == '_'

/-- A digit, followed by digits and underscores. -/
def isDigitRun : List Char → Bool
  | [] => false
  | c :: rest => isAsciiDigit c && rest.all isDigitMark

/-- A part of sixty : one digit, or two of which the first is below six. -/
def isSixty : List Char → Bool
  | [a] => isAsciiDigit a
  | [a, b] => isAsciiDigit a && a.toNat < '6'.toNat && isAsciiDigit b
  | _ => false

/-- Digits and parts of sixty with colons between them. -/
def isSixties (cs : List Char) : Bool :=
  match cs.splitOn ':' with
  | first :: part :: parts => isDigitRun first && (part :: parts).all isSixty
  | _ => false

/-- A whole number. -/
def isInt (cs : List Char) : Bool :=
  match unsigned cs with
  | '0' :: 'b' :: rest => !rest.isEmpty && rest.all fun c => c == '0' || c == '1' || c == '_'
  | '0' :: 'x' :: rest =>
    !rest.isEmpty && rest.all fun c =>
      isDigitMark c || ('a' ≤ c && c ≤ 'f') || ('A' ≤ c && c ≤ 'F')
  | '0' :: rest => rest.all fun c => ('0' ≤ c && c ≤ '7') || c == '_'
  | body => isDigitRun body || isSixties body

/-- Nothing, or an exponent with its sign. -/
def isExponent : List Char → Bool
  | [] => true
  | [_] => false
  | mark :: sign :: rest =>
    (mark == 'e' || mark == 'E') && (sign == '-' || sign == '+') && !rest.isEmpty &&
      rest.all isAsciiDigit

/-- Digits, underscores and perhaps an exponent. -/
def isFraction (cs : List Char) : Bool :=
  isExponent (cs.dropWhile isDigitMark)

/-- A number with a point, infinity, or no number. -/
def isFloat (cs : List Char) : Bool :=
  let body := unsigned cs
  if [".inf", ".Inf", ".INF"].contains (String.ofList body) then true
  else if [".nan", ".NaN", ".NAN"].contains (String.ofList cs) then true
  else
    match cs with
    | '.' :: c :: rest => isAsciiDigit c && isFraction rest
    | _ =>
      match body.dropWhile (· != '.') with
      | '.' :: rest =>
        let whole := body.takeWhile (· != '.')
        (isDigitRun whole && isFraction rest) || (isSixties whole && rest.all isDigitMark)
      | _ => false

/-- The words for null. -/
def nullWords : List String := ["", "~", "null", "Null", "NULL"]

/-- The words for true. -/
def trueWords : List String :=
  ["yes", "Yes", "YES", "true", "True", "TRUE", "on", "On", "ON"]

/-- The words for false. -/
def falseWords : List String :=
  ["no", "No", "NO", "false", "False", "FALSE", "off", "Off", "OFF"]

/-- The tag of a plain scalar. -/
def ofPlain (s : String) : Tag :=
  let cs := s.toList
  if trueWords.contains s || falseWords.contains s then .bool
  else if isFloat cs then .float
  else if isInt cs then .int
  else if s == "<<" then .merge
  else if nullWords.contains s then .null
  else if Timestamp.isPlain cs then .timestamp
  else if s == "=" then .value
  else if s == "!" || s == "&" || s == "*" then .unknown
  else .text

end Tag

end JsonShape.Yaml
