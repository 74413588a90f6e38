/-!
# Places in a YAML text

A `Cursor` is what is left of a text together with the place where it starts : the number of
characters before it, its line and its column. Layout is told by these numbers. Line breaks are
the line feed, the next-line character and the two separators; a carriage return is not among
them, since a text is read with its line ends already made line feeds.
-/

namespace JsonShape.Yaml

/-- The character ends a line. -/
def isBreak (c : Char) : Bool :=
  c == '\n' || c == '\x85' || c == '\u2028' || c == '\u2029'

/-- The character separates tokens : a space, a tab or a line break. -/
def isGap (c : Char) : Bool :=
  c == ' ' || c == '\t' || isBreak c

/-- Nothing follows, or a line break does. -/
def endsLine (next : Option Char) : Bool :=
  (next.map isBreak).getD true

/-- Nothing follows, or a space, a tab or a line break does. -/
def endsToken (next : Option Char) : Bool :=
  (next.map isGap).getD true

/-- Nothing follows, or a space or a line break does. -/
def endsWord (next : Option Char) : Bool :=
  endsToken next && next != some '\t'

/-- Letters, digits, hyphen and underscore of names. -/
def isNameChar (c : Char) : Bool :=
  c.isAlphanum || c == '-' || c == '_'

/-- The rest of a text and where it starts. -/
structure Cursor where
  rest : List Char
  index : Nat := 0
  line : Nat := 0
  column : Nat := 0
deriving Repr, Inhabited

namespace Cursor

/-- The next character, if there is one. -/
def next? (c : Cursor) : Option Char :=
  c.rest.head?

/-- The character after the next one. -/
def second? (c : Cursor) : Option Char :=
  (c.rest.drop 1).head?

/-- One character on. A byte-order mark has no width. -/
def step (c : Cursor) : Cursor :=
  match c.rest with
  | [] => c
  | ch :: rest =>
    if isBreak ch then ⟨rest, c.index + 1, c.line + 1, 0⟩
    else ⟨rest, c.index + 1, c.line, if ch == '\ufeff' then c.column else c.column + 1⟩

/-- Some characters on. -/
def skip : Nat → Cursor → Cursor
  | 0, c => c
  | n + 1, c => skip n c.step

/-- The characters up to the first one that fails the test. -/
def ahead (p : Char → Bool) (c : Cursor) : List Char :=
  c.rest.takeWhile p

/-- Past the characters up to the first one that fails the test. -/
def skipWhile (p : Char → Bool) (c : Cursor) : Cursor :=
  skip (c.ahead p).length c

/-- Past the spaces. -/
def skipSpaces (c : Cursor) : Cursor :=
  c.skipWhile (· == ' ')

/-- Past at most as many spaces as lead to a column. -/
def skipSpacesTo (column : Nat) (c : Cursor) : Cursor :=
  skip (min (column - c.column) (c.ahead (· == ' ')).length) c

/-- To the end of the line. -/
def skipLine (c : Cursor) : Cursor :=
  c.skipWhile fun ch => !isBreak ch

/-- The line break that comes next, and the place after it. Next-line counts as a line feed. -/
def break? (c : Cursor) : Option (Char × Cursor) :=
  match c.next? with
  | none => none
  | some ch =>
    if isBreak ch then some (if ch == '\x85' then '\n' else ch, c.step) else none

/-- Past a line break, if one comes next. -/
def skipBreak (c : Cursor) : Cursor :=
  if (c.break?).isSome then c.step else c

/-- A marker of three equal characters comes next, followed by a gap or nothing. -/
def atMarker (c : Cursor) (mark : Char) : Bool :=
  c.rest.take 3 == [mark, mark, mark] && endsToken (c.rest.drop 3).head?

/-- A marker between documents comes next. -/
def atDocumentMarker (c : Cursor) : Bool :=
  c.atMarker '-' || c.atMarker '.'

end Cursor

end JsonShape.Yaml
