import JsonShape.Value.Basic
import JsonShape.Text.Quoted
import JsonShape.Yaml.Tag

/-!
# Written YAML

`print` writes an object as a block mapping with sorted keys. A text stands plain where it reads
back as itself, else in single quotes, and in double quotes with escapes where it holds anything
but printable ASCII and line feeds. Lines of text are folded at spaces once they pass column 80;
a text in double quotes may be cut anywhere, with a backslash before the line break.
-/

namespace JsonShape.Yaml

/-- The column behind which a text is folded. -/
def bestWidth : Nat := 80

/-- A line break and spaces up to a column. -/
def newLine (indent : Nat) : List Char :=
  '\n' :: List.replicate indent ' '

/-! ## Styles -/

/-- Printable ASCII or a line feed. -/
def isOrdinary (c : Char) : Bool :=
  c == '\n' || (0x20 ≤ c.toNat && c.toNat ≤ 0x7E)

/-- A space with a line feed on either side. -/
def hasLooseSpace : List Char → Bool
  | [] => false
  | [_] => false
  | a :: b :: rest =>
    (a == ' ' && b == '\n') || (a == '\n' && b == ' ') || hasLooseSpace (b :: rest)

/-- The text can stand in single quotes. -/
def fitsSingleQuotes (cs : List Char) : Bool :=
  cs.all isOrdinary && !hasLooseSpace cs

/-- The first character cannot start a plain text. -/
def startsBadly : List Char → Bool
  | [] => true
  | c :: rest =>
    "#,[]\x7b\x7d&*!|>'\"%@\x60 \n".toList.contains c ||
      ("?:-".toList.contains c && (rest.head?.map (· == ' ')).getD true)

/-- Inside a plain text : a colon before a space or at the end, or a number sign behind a space. -/
def hasMark : List Char → Bool
  | [] => false
  | [c] => c == ':'
  | a :: b :: rest => (a == ':' && b == ' ') || (a == ' ' && b == '#') || hasMark (b :: rest)

/-- The text can stand plain and still is a text when it is read. -/
def fitsPlain (cs : List Char) : Bool :=
  !startsBadly cs && cs.getLast? != some ' ' && cs.all (fun c => isOrdinary c && c != '\n') &&
    cs.take 3 != ['-', '-', '-'] && cs.take 3 != ['.', '.', '.'] && !hasMark cs

/-! ## Folded texts -/

/-- The spaces of a text, a single one as a new line once the column is passed. -/
def spaces (canFold : Bool) (indent column n : Nat) : List Char × Nat :=
  if canFold && n == 1 && bestWidth < column then (newLine indent, indent)
  else (List.replicate n ' ', column + n)

/-- A plain text from a column on. -/
def plainText (indent : Nat) : Nat → Nat → List Char → List Char
  | 0, _, _ => []
  | _, _, [] => []
  | fuel + 1, column, c :: rest =>
    if c == ' ' then
      let n := (rest.takeWhile (· == ' ')).length + 1
      let (text, column) := spaces true indent column n
      text ++ plainText indent fuel column ((c :: rest).drop n)
    else c :: plainText indent fuel (column + 1) rest

/-- A text in single quotes, between its quotes. A run of line feeds gets one more, and an
apostrophe is doubled. -/
def singleText (indent : Nat) : Nat → Bool → Nat → List Char → List Char
  | 0, _, _, _ => []
  | _, _, _, [] => []
  | fuel + 1, isFirst, column, c :: rest =>
    if c == ' ' then
      let n := (rest.takeWhile (· == ' ')).length + 1
      let after := (c :: rest).drop n
      let (text, column) := spaces (!isFirst && !after.isEmpty) indent column n
      text ++ singleText indent fuel false column after
    else if c == '\n' then
      let n := (rest.takeWhile (· == '\n')).length + 1
      List.replicate n '\n' ++ newLine indent ++
        singleText indent fuel false indent ((c :: rest).drop n)
    else if c == '\'' then '\'' :: '\'' :: singleText indent fuel false (column + 2) rest
    else c :: singleText indent fuel false (column + 1) rest

/-- The letters of characters with an escape of their own. -/
def escapeLetters : List (Char × Char) :=
  [('\x00', '0'), ('\x07', 'a'), ('\x08', 'b'), ('\t', 't'), ('\n', 'n'), ('\x0b', 'v'),
    ('\x0c', 'f'), ('\r', 'r'), ('\x1b', 'e'), ('"', '"'), ('\\', '\\'), ('\x85', 'N'),
    ('\xa0', '_'), ('\u2028', 'L'), ('\u2029', 'P')]

/-- How a character is escaped in double quotes, where it is. -/
def escape? (c : Char) : Option (List Char) :=
  match escapeLetters.lookup c with
  | some letter => some ['\\', letter]
  | none =>
    let n := c.toNat
    if 0x20 ≤ n && n ≤ 0x7E then none
    else if n ≤ 0xFF then some ('\\' :: 'x' :: Text.upperHexDigits 2 n)
    else if n ≤ 0xFFFF then some ('\\' :: 'u' :: Text.upperHexDigits 4 n)
    else some ('\\' :: 'U' :: Text.upperHexDigits 8 n)

/-- A cut in a text in double quotes : a space behind it is kept by a backslash. Gives the column
behind it too. -/
def cut (indent : Nat) (next : Option Char) : List Char × Nat :=
  if next == some ' ' then ('\\' :: newLine indent ++ ['\\'], indent + 1)
  else ('\\' :: newLine indent, indent)

/-- A text in double quotes, between its quotes. It is cut before a space, behind an escape and
right after one, but not next to its ends. The number of plain characters since the last cut or
escape is `run`. -/
def doubleText (canFold : Bool) (indent : Nat) : Bool → Nat → Nat → List Char → List Char
  | _, _, _, [] => []
  | isFirst, column, run, c :: rest =>
    let mayCut := canFold && !isFirst && !rest.isEmpty
    match escape? c with
    | some text =>
      let column := column + text.length
      if mayCut && bestWidth + 1 < column then
        let (gap, column) := cut indent rest.head?
        text ++ gap ++ doubleText canFold indent false column 0 rest
      else text ++ doubleText canFold indent false column 0 rest
    | none =>
      if mayCut && (c == ' ' || run == 0) && bestWidth < column then
        let (gap, column) := cut indent (some c)
        gap ++ c :: doubleText canFold indent false (column + 1) 1 rest
      else c :: doubleText canFold indent false (column + 1) (run + 1) rest

/-- A text from a column on, its further lines behind `indent`. A key is never folded. -/
def textScalar (isKey : Bool) (indent column : Nat) (s : String) : List Char :=
  let cs := s.toList
  if fitsPlain cs && Tag.ofPlain s == .text then
    if isKey then cs else plainText indent (cs.length + 1) column cs
  else if fitsSingleQuotes cs && !(isKey && cs.contains '\n') then
    if isKey then '\'' :: cs.flatMap (fun c => if c == '\'' then ['\'', '\''] else [c]) ++ ['\'']
    else '\'' :: singleText indent (cs.length + 1) true (column + 1) cs ++ ['\'']
  else '"' :: doubleText (!isKey) indent true (column + 1) 0 cs ++ ['"']

/-! ## Values -/

/-- A floating-point number : a point is always there. -/
def floatText : Binary64 → String
  | .notANumber => ".nan"
  | .infinite negative => if negative then "-.inf" else ".inf"
  | x =>
    let cs := x.text.toList
    if cs.contains '.' || !cs.contains 'e' then x.text
    else
      String.ofList (cs.takeWhile (· != 'e') ++ ".0".toList ++ cs.dropWhile (· != 'e'))

/-- A value that is no filled collection. -/
def scalarText (isKey : Bool) (indent column : Nat) : Value → List Char
  | .null => "null".toList
  | .bool b => (if b then "true" else "false").toList
  | .int n => (toString n).toList
  | .decimal d => d.text.toList
  | .float x => (floatText x).toList
  | .text s => textScalar isKey indent column s
  | .list _ => "[]".toList
  | .tuple _ => "[]".toList
  | .object _ => "\x7b\x7d".toList
  | .foreign f => f.shown.toList

/-- The order of keys. -/
def keyLe (a b : Value × Value) : Bool :=
  match a.1, b.1 with
  | .text s, .text t => s ≤ t
  | _, _ => true

/-- Lines behind one indentation. -/
def joinLines (indent : Nat) (parts : List (List Char)) : List Char :=
  List.intercalate (newLine indent) parts

mutual

/-- A value behind the colon of a key at `indent`. -/
def behindKey (indent column : Nat) : Value → List Char
  | .list (x :: xs) => newLine indent ++ joinLines indent (itemTexts indent (x :: xs))
  | .object (e :: es) =>
    newLine (indent + 2) ++ joinLines (indent + 2) (entryTexts (indent + 2) (e :: es))
  | v => ' ' :: scalarText false (indent + 2) (column + 1) v

/-- A value behind the hyphen of an item at `indent`. -/
def behindItem (indent : Nat) : Value → List Char
  | .list (x :: xs) => joinLines (indent + 2) (itemTexts (indent + 2) (x :: xs))
  | .object (e :: es) => joinLines (indent + 2) (entryTexts (indent + 2) (e :: es))
  | v => scalarText false (indent + 2) (indent + 2) v

/-- The items of a sequence. -/
def itemTexts (indent : Nat) : List Value → List (List Char)
  | [] => []
  | v :: vs => ('-' :: ' ' :: behindItem indent v) :: itemTexts indent vs

/-- The entries of a mapping. -/
def entryTexts (indent : Nat) : List (Value × Value) → List (List Char)
  | [] => []
  | (k, v) :: rest =>
    let key := scalarText true indent indent k
    (key ++ ':' :: behindKey indent (indent + key.length + 1) v) :: entryTexts indent rest

end

mutual

/-- The value with the keys of every object sorted. -/
def sortKeys : Value → Value
  | .list items => .list (sortItems items)
  | .tuple items => .list (sortItems items)
  | .object entries => .object ((sortEntries entries).mergeSort keyLe)
  | v => v

/-- The items, each with its keys sorted. -/
def sortItems : List Value → List Value
  | [] => []
  | v :: vs => sortKeys v :: sortItems vs

/-- The entries, each value with its keys sorted. -/
def sortEntries : List (Value × Value) → List (Value × Value)
  | [] => []
  | (k, v) :: rest => (k, sortKeys v) :: sortEntries rest

end

/-- An object as a document of its own. -/
def print (entries : List (Value × Value)) : String :=
  match sortKeys (.object entries) with
  | .object (e :: es) => String.ofList (joinLines 0 (entryTexts 0 (e :: es)) ++ ['\n'])
  | _ => "\x7b\x7d\n"

end JsonShape.Yaml
