/-!
# Grammar of JSON

Two readers of the library share the shape of JSON : arrays and objects with their brackets, commas
and colons. A `Dialect` says what differs between them : the blanks, the strings, the words and
numbers, and what is built from the parts. `Dialect.readTree` reads one tree at the start of the
characters, and `Dialect.readStream` reads trees to the end.

What one level of a tree does is said once, with readers of the levels below it as arguments
(`treeStep`, `rowStep`, `entryStep`). The readers are these steps, on fuel.
-/

namespace JsonShape.Json

/-- What one reader of JSON decides : `ε` are its faults and `α` its trees. -/
structure Dialect (ε α : Type) where
  isBlank : Char → Bool
  /-- The string whose opening quote is passed already, and what follows its closing quote. -/
  text : List Char → Except ε (String × List Char)
  /-- The word or number at the start. -/
  atom : List Char → Except ε (α × List Char)
  /-- The characters end before the string, word or number at their start does. -/
  isCut : List Char → Bool
  ofText : String → α
  ofItems : List α → α
  ofEntries : List (String × α) → α
  /-- The characters break the grammar. -/
  malformed : ε
  /-- The characters end too early. -/
  truncated : ε

/-- What a tree starts with, and the characters from there on. -/
inductive Opening where
  /-- A string, after its quote. -/
  | text (rest : List Char)
  /-- An array that is closed at once. -/
  | noItems (rest : List Char)
  | items (rest : List Char)
  /-- An object that is closed at once. -/
  | noEntries (rest : List Char)
  | entries (rest : List Char)
  | atom (rest : List Char)

/-- What follows an item or an entry, and the characters behind it. -/
inductive Joint where
  | close (rest : List Char)
  | comma (rest : List Char)
  /-- Nothing that may follow. -/
  | other (rest : List Char)

namespace Dialect

variable {ε α β : Type} (d : Dialect ε α)

/-- The characters after the blanks. -/
def skip (cs : List Char) : List Char :=
  cs.dropWhile d.isBlank

/-- The fault of characters that cannot go on like this. It is met when the string, word or number
at their start is over. -/
def unexpected (cs : List Char) : ε :=
  if d.isCut cs then d.truncated else d.malformed

/-- What follows the character, if it stands next after blanks. -/
def after? (c : Char) (cs : List Char) : Option (List Char) :=
  match d.skip cs with
  | [] => none
  | next :: rest => if next = c then some rest else none

/-! ## One level of a tree -/

/-- How a tree starts, after blanks. -/
def opening (cs : List Char) : Opening :=
  match d.after? '"' cs with
  | some rest => .text rest
  | none =>
    match d.after? '[' cs with
    | some inner =>
      match d.after? ']' inner with
      | some rest => .noItems rest
      | none => .items (d.skip inner)
    | none =>
      match d.after? '\x7b' cs with
      | some inner =>
        match d.after? '\x7d' inner with
        | some rest => .noEntries rest
        | none => .entries (d.skip inner)
      | none => .atom (d.skip cs)

/-- How a row goes on that ends with `bracket`, after blanks. -/
def joint (bracket : Char) (cs : List Char) : Joint :=
  match d.after? bracket cs with
  | some rest => .close rest
  | none =>
    match d.after? ',' cs with
    | some rest => .comma rest
    | none => .other (d.skip cs)

/-- A tree, with given readers of what stands between its brackets. -/
def treeStep (items : List Char → Except ε (List α × List Char))
    (entries : List Char → Except ε (List (String × α) × List Char)) (cs : List Char) :
    Except ε (α × List Char) :=
  match d.opening cs with
  | .text rest =>
    match d.text rest with
    | .error fault => .error fault
    | .ok (s, after) => .ok (d.ofText s, after)
  | .noItems after => .ok (d.ofItems [], after)
  | .items rest =>
    match items rest with
    | .error fault => .error fault
    | .ok (ts, after) => .ok (d.ofItems ts, after)
  | .noEntries after => .ok (d.ofEntries [], after)
  | .entries rest =>
    match entries rest with
    | .error fault => .error fault
    | .ok (es, after) => .ok (d.ofEntries es, after)
  | .atom rest => d.atom rest

/-- A row that ends with `bracket`, with given readers of its first element and of those after the
comma. -/
def rowStep (bracket : Char) (one : List Char → Except ε (β × List Char))
    (more : List Char → Except ε (List β × List Char)) (cs : List Char) :
    Except ε (List β × List Char) :=
  match one cs with
  | .error fault => .error fault
  | .ok (x, rest) =>
    match d.joint bracket rest with
    | .close after => .ok ([x], after)
    | .comma next =>
      match more next with
      | .error fault => .error fault
      | .ok (xs, after) => .ok (x :: xs, after)
    | .other rest => .error (d.unexpected rest)

/-- The name of an entry with its colon. -/
def readName (cs : List Char) : Except ε (String × List Char) :=
  match d.after? '"' cs with
  | none => .error (d.unexpected (d.skip cs))
  | some inner =>
    match d.text inner with
    | .error fault => .error fault
    | .ok (name, afterName) =>
      match d.after? ':' afterName with
      | none => .error (d.unexpected (d.skip afterName))
      | some rest => .ok (name, rest)

/-- An entry of an object, with a given reader of its value. -/
def entryStep (tree : List Char → Except ε (α × List Char)) (cs : List Char) :
    Except ε ((String × α) × List Char) :=
  match d.readName cs with
  | .error fault => .error fault
  | .ok (name, rest) =>
    match tree rest with
    | .error fault => .error fault
    | .ok (value, after) => .ok ((name, value), after)

/-! ## Readers -/

mutual

/-- The tree at the start, after blanks. Every level of nesting and every comma takes a character,
so twice as much fuel as there are characters is enough. -/
def readTree : Nat → List Char → Except ε (α × List Char)
  | 0, _ => .error d.malformed
  | fuel + 1, cs => d.treeStep (readItems fuel) (readEntries fuel) cs

/-- The items of an array that is not empty, up to its closing bracket. -/
def readItems : Nat → List Char → Except ε (List α × List Char)
  | 0, _ => .error d.malformed
  | fuel + 1, cs => d.rowStep ']' (readTree fuel) (readItems fuel) cs

/-- The entries of an object that is not empty, up to its closing brace. -/
def readEntries : Nat → List Char → Except ε (List (String × α) × List Char)
  | 0, _ => .error d.malformed
  | fuel + 1, cs => d.rowStep '\x7d' (d.entryStep (readTree fuel)) (readEntries fuel) cs

end

/-- The tree at the start of the characters, and what follows it. -/
def tree (cs : List Char) : Except ε (α × List Char) :=
  d.readTree (2 * cs.length + 2) cs

/-- The trees up to the end. Every tree takes a character, so as much fuel as there are characters
is enough. -/
def readStream : Nat → List Char → Except ε (List α)
  | 0, _ => .error d.malformed
  | fuel + 1, cs =>
    match d.skip cs with
    | [] => .ok []
    | c :: rest =>
      match d.tree (c :: rest) with
      | .error fault => .error fault
      | .ok (t, after) =>
        match readStream fuel after with
        | .error fault => .error fault
        | .ok ts => .ok (t :: ts)

/-- All trees of the characters. -/
def stream (cs : List Char) : Except ε (List α) :=
  d.readStream (cs.length + 1) cs

/-- The only tree of the characters. -/
def only (cs : List Char) : Except ε α :=
  match d.tree cs with
  | .error fault => .error fault
  | .ok (t, rest) => if (d.skip rest).isEmpty then .ok t else .error d.malformed

/-- What follows `word` at the start of the characters. -/
def afterWord? : List Char → List Char → Option (List Char)
  | [], cs => some cs
  | w :: ws, c :: cs => if w == c then afterWord? ws cs else none
  | _ :: _, [] => none

/-- The tree of the first word that stands at the start. -/
def readWord (words : List (String × α)) (cs : List Char) : Option (α × List Char) :=
  words.findSome? fun w => (afterWord? w.1.toList cs).map fun rest => (w.2, rest)

end Dialect

/-! ## Codes of sixteen bits -/

/-- Value of a digit in base sixteen. -/
def hexValue? (c : Char) : Option Nat :=
  if '0' ≤ c ∧ c ≤ '9' then some (c.toNat - '0'.toNat)
  else if 'a' ≤ c ∧ c ≤ 'f' then some (c.toNat - 'a'.toNat + 10)
  else if 'A' ≤ c ∧ c ≤ 'F' then some (c.toNat - 'A'.toNat + 10)
  else none

/-- Value of digits in base sixteen. -/
def hexCode? (cs : List Char) : Option Nat :=
  cs.foldl (fun n c => do pure ((← n) * 16 + (← hexValue? c))) (some 0)

/-- The character that an escape letter stands for. -/
def escaped? : Char → Option Char
  | '"' => some '"'
  | '\\' => some '\\'
  | '/' => some '/'
  | 'b' => some '\x08'
  | 'f' => some '\x0c'
  | 'n' => some '\n'
  | 'r' => some '\r'
  | 't' => some '\t'
  | _ => none

/-- First half of a pair. -/
def isHighHalf (n : Nat) : Bool :=
  0xD800 ≤ n && n ≤ 0xDBFF

/-- Second half of a pair. -/
def isLowHalf (n : Nat) : Bool :=
  0xDC00 ≤ n && n ≤ 0xDFFF

end JsonShape.Json
