import JsonShape.Json.Basic
import JsonShape.Json.Grammar
import JsonShape.Number.Literal

/-!
# Read JSON

`Json.read` reads one tree from a text. Blanks are space, tab, line feed and carriage return, a
string holds no control characters, of two entries with one name the later value counts, and three
words beyond JSON stand for numbers : `NaN`, `Infinity` and `-Infinity`.
-/

namespace JsonShape.Json

/-- Why a text is no JSON tree. -/
inductive ReadFault where
  /-- The text breaks the grammar. -/
  | malformed
  /-- A whole number has more digits than can be read. -/
  | integerTooLong
deriving DecidableEq, Repr, Inhabited

/-- Most digits of a whole number. -/
def maxDigits : Nat := 4300

/-- Space, tab, line feed or carriage return. -/
def isSpace (c : Char) : Bool :=
  c == ' ' || c == '\t' || c == '\n' || c == '\r'

/-- The codes of a string up to its closing quote, after those in `done`, which are in reverse;
and what follows the quote. -/
def readCodes (done : List Nat) : List Char → Option (List Nat × List Char)
  | [] => none
  | '"' :: rest => some (done.reverse, rest)
  | '\\' :: 'u' :: a :: b :: c :: d :: rest =>
    match hexCode? [a, b, c, d] with
    | none => none
    | some code => readCodes (code :: done) rest
  | '\\' :: e :: rest =>
    match escaped? e with
    | none => none
    | some c => readCodes (c.toNat :: done) rest
  | c :: rest => if c.toNat < 0x20 || c == '\\' then none else readCodes (c.toNat :: done) rest

/-- The character of a code; half of a pair is shown as the replacement character. -/
def charOfCode (n : Nat) : Char :=
  if isHighHalf n || isLowHalf n then '�' else Char.ofNat n

/-- The characters of codes, two halves of a pair joined, after those in `done`, which are in
reverse. -/
def joinPairs (done : List Char) : List Nat → List Char
  | [] => done.reverse
  | [n] => (charOfCode n :: done).reverse
  | high :: low :: rest =>
    if isHighHalf high && isLowHalf low then
      joinPairs (Char.ofNat (0x10000 + (high - 0xD800) * 0x400 + (low - 0xDC00)) :: done) rest
    else joinPairs (charOfCode high :: done) (low :: rest)

/-- The string whose opening quote is passed already. -/
def readText (cs : List Char) : Except ReadFault (String × List Char) :=
  match readCodes [] cs with
  | none => .error .malformed
  | some (codes, rest) => .ok (String.ofList (joinPairs [] codes), rest)

/-- The tree of a number literal. -/
def ofLiteral (l : NumberLiteral) : Except ReadFault Json :=
  if l.isInteger then
    if l.whole.length > maxDigits then .error .integerTooLong else .ok (.int l.toInt)
  else .ok (.float (Binary64.ofDecimal l.toDecimal))

/-- The words that stand for a tree. -/
def words : List (String × Json) :=
  [("null", .null), ("true", .bool true), ("false", .bool false), ("NaN", .float .notANumber),
    ("Infinity", .float (.infinite false)), ("-Infinity", .float (.infinite true))]

/-- The tree of the word or number at the start. -/
def readAtom (cs : List Char) : Except ReadFault (Json × List Char) :=
  match Dialect.readWord words cs with
  | some found => .ok found
  | none =>
    match NumberLiteral.scan cs with
    | none => .error .malformed
    | some (l, rest) =>
      match ofLiteral l with
      | .error fault => .error fault
      | .ok j => .ok (j, rest)

/-- How schemas are read. -/
def schemaDialect : Dialect ReadFault Json where
  isBlank := isSpace
  text := readText
  atom := readAtom
  isCut := List.isEmpty
  ofText := .string
  ofItems := .array
  ofEntries := ofEntries
  malformed := .malformed
  truncated := .malformed

/-- The tree that a whole text is. -/
def read (s : String) : Except ReadFault Json :=
  schemaDialect.only s.toList

end JsonShape.Json
