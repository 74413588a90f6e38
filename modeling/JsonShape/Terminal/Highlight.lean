import JsonShape.Render.Format
import JsonShape.Text.CharClass

/-!
# Highlighted output

Declarations on a terminal are coloured. `wantColor` resolves the colour mode : `auto` colours a
terminal unless `NO_COLOR` is set to something. `highlight` gives the text as it is coloured : line
ends become line feeds, line feeds at both ends are dropped and one is put at the end. Whether any
colour shows depends on the text : in each language some tokens have none, names and brackets among
them, and `hasColor` tells whether a token that has one occurs.
-/

namespace JsonShape.Highlight

open Text

/-- The colour modes. -/
def modes : List String := ["auto", "always", "never"]

/-- Whether colour is wanted, or the report on a mode that is none of the three. -/
def wantColor (mode : String) (isTerminal : Bool) (noColor : Option String) :
    Except Report Bool :=
  if mode == "always" then .ok true
  else if mode == "never" then .ok false
  else if mode == "auto" then .ok (isTerminal && (noColor.getD "").isEmpty)
  else .error (.configuration "Unknown color mode" (.text "color") (.text mode))

/-! ## Prepared text -/

/-- The characters without a byte-order mark at their start. -/
def dropMark : List Char → List Char
  | '\ufeff' :: rest => rest
  | cs => cs

/-- The characters that are coloured. -/
def prepared (s : String) : List Char :=
  let cs := (lineFeeds (dropMark s.toList)).dropWhile (· == '\n')
  (cs.reverse.dropWhile (· == '\n')).reverse ++ ['\n']

/-! ## Tokens with a colour -/

/-- The character can stand in a word. -/
def isWordChar (c : Char) : Bool :=
  c == '_' || isLetter c || isDigit c

/-- The words of Go that have a colour. -/
def goWords : List String :=
  Go.keywords ++
    ["true", "false", "iota", "nil", "uint", "uint8", "uint16", "uint32", "uint64", "int", "int8",
      "int16", "int32", "int64", "float", "float32", "float64", "complex64", "complex128", "byte",
      "rune", "string", "bool", "error", "uintptr", "any", "comparable"]

/-- The functions of Go that have a colour where they are called. -/
def goFunctions : List String :=
  ["print", "println", "panic", "recover", "close", "complex", "real", "imag", "len", "cap",
    "append", "copy", "delete", "new", "make", "min", "max", "clear"]

/-- The words of Python that have a colour only where a blank follows. -/
def pythonOpeners : List String := ["def", "class", "from", "import"]

/-- The words of Python that have a colour. -/
def pythonWords : List String :=
  Pydantic.keywords.filter (fun w => !pythonOpeners.contains w) ++
    ["abs", "aiter", "all", "any", "bin", "bool", "bytearray", "breakpoint", "bytes", "callable",
      "chr", "classmethod", "compile", "complex", "delattr", "dict", "dir", "divmod", "enumerate",
      "eval", "filter", "float", "format", "frozenset", "getattr", "globals", "hasattr", "hash",
      "hex", "id", "input", "int", "isinstance", "issubclass", "iter", "len", "list", "locals",
      "map", "max", "memoryview", "min", "next", "object", "oct", "open", "ord", "pow", "print",
      "property", "range", "repr", "reversed", "round", "set", "setattr", "slice", "sorted",
      "staticmethod", "str", "sum", "super", "tuple", "type", "vars", "zip", "__import__", "self",
      "cls", "Ellipsis", "NotImplemented"]

/-- The exceptions of Python, which have a colour too. -/
def pythonExceptions : List String :=
  ["ArithmeticError", "AssertionError", "AttributeError", "BaseException", "BufferError",
    "BytesWarning", "DeprecationWarning", "EOFError", "EnvironmentError", "Exception",
    "FloatingPointError", "FutureWarning", "GeneratorExit", "IOError", "ImportError",
    "ImportWarning", "IndentationError", "IndexError", "KeyError", "KeyboardInterrupt",
    "LookupError", "MemoryError", "NameError", "NotImplementedError", "OSError", "OverflowError",
    "PendingDeprecationWarning", "ReferenceError", "ResourceWarning", "RuntimeError",
    "RuntimeWarning", "StopIteration", "SyntaxError", "SyntaxWarning", "SystemError",
    "SystemExit", "TabError", "TypeError", "UnboundLocalError", "UnicodeDecodeError",
    "UnicodeEncodeError", "UnicodeError", "UnicodeTranslateError", "UnicodeWarning",
    "UserWarning", "ValueError", "VMSError", "Warning", "WindowsError", "ZeroDivisionError",
    "BlockingIOError", "ChildProcessError", "ConnectionError", "BrokenPipeError",
    "ConnectionAbortedError", "ConnectionRefusedError", "ConnectionResetError",
    "FileExistsError", "FileNotFoundError", "InterruptedError", "IsADirectoryError",
    "NotADirectoryError", "PermissionError", "ProcessLookupError", "TimeoutError",
    "StopAsyncIteration", "ModuleNotFoundError", "RecursionError", "EncodingWarning"]

/-- A word between double underscores. -/
def isMagic (word : List Char) : Bool :=
  4 < word.length && word.take 2 == ['_', '_'] && word.reverse.take 2 == ['_', '_']

/-- The characters start with a pair that has a colour. -/
def startsWithPair (pairs : List String) (cs : List Char) : Bool :=
  pairs.any fun p => p.toList.isPrefixOf cs

/-- A text in double quotes is closed, where a backslash takes the character behind it along. -/
def closesGoText : List Char → Bool
  | [] => false
  | ['\\'] => false
  | '\\' :: _ :: rest => closesGoText rest
  | c :: rest => c == '"' || closesGoText rest

/-- The letters behind the backslash of a character in quotes. -/
def goEscapes : List Char := ['\'', '"', '\\', 'a', 'b', 'f', 'n', 'r', 't', 'v']

/-- A digit of base sixteen. -/
def isHexDigit (c : Char) : Bool :=
  isAsciiDigit c || ('a' ≤ c && c ≤ 'f') || ('A' ≤ c && c ≤ 'F')

/-- So many digits of base sixteen with a quote behind them. -/
def closesAfterHex (n : Nat) (cs : List Char) : Bool :=
  (cs.take n).length == n && (cs.take n).all isHexDigit && (cs.drop n).head? == some '\''

/-- One to three octal digits with a quote behind them. -/
def closesAfterOctal (cs : List Char) : Bool :=
  let digits := cs.takeWhile fun c => '0' ≤ c && c ≤ '7'
  !digits.isEmpty && digits.length ≤ 3 && (cs.drop digits.length).head? == some '\''

/-- One character in single quotes, behind the first of them. -/
def closesGoChar : List Char → Bool
  | '\\' :: c :: rest =>
    (goEscapes.contains c && rest.head? == some '\'') || (c == 'x' && closesAfterHex 2 rest) ||
      (c == 'u' && closesAfterHex 4 rest) || (c == 'U' && closesAfterHex 8 rest) ||
      closesAfterOctal (c :: rest)
  | c :: rest => c != '\\' && rest.head? == some '\''
  | [] => false

/-- A token with a colour occurs in a Go text. -/
def goHasColor : Nat → List Char → Bool
  | 0, _ => false
  | _, [] => false
  | fuel + 1, c :: rest =>
    if c == '\n' then goHasColor fuel rest
    else if isBlank c then true
    else if c == '_' || isLetter c then
      let word := c :: rest.takeWhile isWordChar
      let after := rest.dropWhile isWordChar
      goWords.contains (String.ofList word) ||
        (goFunctions.contains (String.ofList word) && after.head? == some '(') ||
        goHasColor fuel after
    else if isAsciiDigit c then true
    else if c == '"' then closesGoText rest || goHasColor fuel rest
    else if c == '\x60' then rest.contains c || goHasColor fuel rest
    else if c == '\'' then closesGoChar rest || goHasColor fuel rest
    else if "+-*/%&~|".toList.contains c then true
    else if startsWithPair ["<<", ">>", "<=", ">=", "<-", "==", "!=", ":=", "..."] (c :: rest) then
      true
    else if c == '.' && (rest.head?.map isAsciiDigit).getD false then true
    else goHasColor fuel rest

/-- A token with a colour occurs in a Python text. -/
def pythonHasColor : Nat → List Char → Bool
  | 0, _ => false
  | _, [] => false
  | fuel + 1, c :: rest =>
    if c == '_' || isLetter c then
      let word := c :: rest.takeWhile isWordChar
      let after := rest.dropWhile isWordChar
      pythonWords.contains (String.ofList word) || isMagic word ||
        pythonExceptions.contains (String.ofList word) ||
        (pythonOpeners.contains (String.ofList word) && (after.head?.map isBlank).getD false) ||
        pythonHasColor fuel after
    else if isAsciiDigit c then true
    else if "\"'#-~+/*%=<>&^|.@".toList.contains c then true
    else if startsWithPair ["!="] (c :: rest) then true
    else pythonHasColor fuel rest

/-- A text in JSON is closed. A backslash takes the character behind it along, and `\\u` takes four
digits, or what stands in their place. The number of digits still to come is `digits`. -/
def closesJsonText : Nat → List Char → Bool
  | _, [] => false
  | digits + 1, c :: rest => closesJsonText (if isHexDigit c then digits else 0) rest
  | 0, ['\\'] => false
  | 0, '\\' :: c :: rest => closesJsonText (if c == 'u' then 4 else 0) rest
  | 0, c :: rest => c == '"' || closesJsonText 0 rest

/-- A comment of several lines is closed. -/
def closesComment : List Char → Bool
  | '*' :: '/' :: _ => true
  | _ :: rest => closesComment rest
  | [] => false

/-- A token with a colour occurs in a JSON text. What is not closed has none and goes on to the
end. -/
def jsonHasColor : List Char → Bool
  | [] => false
  | '"' :: rest => closesJsonText 0 rest
  | '/' :: '/' :: _ => true
  | '/' :: '*' :: rest => closesComment rest
  | c :: rest => " \tfnt-0123456789".toList.contains c || jsonHasColor rest

/-- A token with a colour occurs in a text of the format. -/
def hasColor (f : OutputFormat) (cs : List Char) : Bool :=
  match f with
  | .go => goHasColor cs.length cs
  | .pydantic => pythonHasColor cs.length cs
  | .jsonSchema => jsonHasColor cs

/-! ## Output -/

/-- A text for the terminal : its characters, codes left out, and whether codes occur among them. -/
structure Shown where
  text : String
  colored : Bool
deriving DecidableEq, Repr

/-- A text as it goes out without colour. -/
def uncolored (s : String) : Shown := ⟨s, false⟩

/-- A text in the format as it goes out with colour. -/
def highlight (f : OutputFormat) (s : String) : Shown :=
  let cs := prepared s
  ⟨String.ofList cs, hasColor f cs⟩

/-- A text in the format of that name, with colour where it is wanted. -/
def colorize (s format mode : String) (isTerminal : Bool) (noColor : Option String) :
    Except Report Shown :=
  match OutputFormat.ofName? format with
  | none => .ok (uncolored s)
  | some f =>
    match wantColor mode isTerminal noColor with
    | .error r => .error r
    | .ok wanted => .ok (if wanted then highlight f s else uncolored s)

end JsonShape.Highlight
