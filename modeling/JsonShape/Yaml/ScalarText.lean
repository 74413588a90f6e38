import JsonShape.Json.Grammar
import JsonShape.Yaml.Cursor

/-!
# Scalars in a YAML text

A scalar is written plain, in single or double quotes, or as a block under `|` or `>`. Each reader
takes the place where a scalar starts and gives its text and the place behind it. In all but the
literal block a single line break folds into a space, and of several the first one is dropped.

Most faults are one : the text is no YAML, or a node does not fit its tag. A few arise only from
an escape or a tag that names what its text is not, and are told apart.
-/

namespace JsonShape.Yaml

/-- Why a text cannot be read. -/
inductive Fault where
  /-- The text breaks the grammar, or a node does not fit its tag. -/
  | malformed
  /-- A text that is no number, no date, or too large a code. -/
  | badValue
  /-- A number without a single character. -/
  | emptyNumber
  /-- A text that is no boolean. -/
  | notBoolean (text : String)
  /-- A text that is no date. -/
  | notTimestamp
deriving DecidableEq, Repr, Inhabited

/-- What a line break and the empty lines after it fold to. -/
def fold (first : Char) (more : List Char) : List Char :=
  (if first != '\n' then [first] else if more.isEmpty then [' '] else []) ++ more

/-! ## Plain -/

/-- The characters that end a plain scalar inside brackets, after a colon or on their own. -/
def flowMarks : List Char := ",[]\x7b\x7d".toList

/-- The characters of a plain scalar up to the next gap or the mark that ends it. -/
def plainPart (inFlow : Bool) : List Char → List Char
  | [] => []
  | ch :: rest =>
    if isGap ch || (inFlow && (ch == '?' || flowMarks.contains ch)) then []
    else if ch == ':' &&
        (endsToken rest.head? || (inFlow && (rest.head?.map flowMarks.contains).getD false)) then []
    else ch :: plainPart inFlow rest

/-- Spaces and line breaks inside a plain scalar, after its first line break. None where a marker
between documents comes. -/
def plainBreaks : Nat → Cursor → List Char → Option (List Char) × Cursor
  | 0, c, _ => (none, c)
  | fuel + 1, c, found =>
    match c.break? with
    | some (b, after) =>
      if after.atDocumentMarker then (none, after) else plainBreaks fuel after (found ++ [b])
    | none =>
      if c.next? == some ' ' then plainBreaks fuel c.step found else (some found, c)

/-- What separates two parts of a plain scalar. -/
structure PlainGap where
  /-- What it folds to; empty where the scalar ends. -/
  text : List Char
  cursor : Cursor
  crossesLine : Bool

/-- The gap at a place in a plain scalar. -/
def plainGap (c : Cursor) : PlainGap :=
  let after := c.skipSpaces
  match after.break? with
  | none => ⟨c.ahead (· == ' '), after, false⟩
  | some (b, next) =>
    if next.atDocumentMarker then ⟨[], next, true⟩
    else
      match plainBreaks (next.rest.length + 1) next [] with
      | (none, place) => ⟨[], place, true⟩
      | (some more, place) => ⟨fold b more, place, true⟩

/-- A scalar, the place behind it, and whether a key may start there. -/
structure PlainScalar where
  text : List Char
  cursor : Cursor
  keyAllowed : Bool

/-- The parts of a plain scalar from a place on; the lines it goes on to must start at `indent` or
behind it, except inside brackets. -/
def plainParts (inFlow : Bool) (indent : Nat) : Nat → PlainScalar → List Char → PlainScalar
  | 0, s, _ => s
  | fuel + 1, s, gap =>
    let part := plainPart inFlow s.cursor.rest
    if part.isEmpty || s.cursor.next? == some '#' then s
    else
      let found := plainGap (s.cursor.skip part.length)
      let s : PlainScalar := ⟨s.text ++ gap ++ part, found.cursor, found.crossesLine⟩
      if found.text.isEmpty || (!inFlow && found.cursor.column < indent) then s
      else plainParts inFlow indent fuel s found.text

/-- The plain scalar at a place. -/
def plainScalar (inFlow : Bool) (indent : Nat) (c : Cursor) : PlainScalar :=
  plainParts inFlow indent (c.rest.length + 1) ⟨[], c, false⟩ []

/-! ## Quoted -/

/-- The character that a letter after a backslash stands for. -/
def escapes : List (Char × Char) :=
  [('0', '\x00'), ('a', '\x07'), ('b', '\x08'), ('t', '\t'), ('\t', '\t'), ('n', '\n'),
    ('v', '\x0b'), ('f', '\x0c'), ('r', '\r'), ('e', '\x1b'), (' ', ' '), ('"', '"'),
    ('\\', '\\'), ('/', '/'), ('N', '\x85'), ('_', '\xa0'), ('L', '\u2028'), ('P', '\u2029')]

/-- The number of hexadecimal digits after a letter that starts a code. -/
def codeLengths : List (Char × Nat) :=
  [('x', 2), ('u', 4), ('U', 8)]

/-- The empty lines in a quoted scalar, with the blanks at the starts of lines dropped. -/
def quotedBreaks : Nat → Cursor → List Char → Except Fault (List Char × Cursor)
  | 0, _, _ => .error .malformed
  | fuel + 1, c, found =>
    if c.atDocumentMarker then .error .malformed
    else
      let after := c.skipWhile fun ch => ch == ' ' || ch == '\t'
      match after.break? with
      | some (b, next) => quotedBreaks fuel next (found ++ [b])
      | none => .ok (found, after)

/-- The escape behind a backslash : the characters it stands for and the place behind it. -/
def quotedEscape (c : Cursor) : Except Fault (List Char × Cursor) :=
  match c.next? with
  | none => .error .malformed
  | some ch =>
    match escapes.lookup ch, codeLengths.lookup ch, c.break? with
    | some meant, _, _ => .ok ([meant], c.step)
    | none, some n, _ =>
      match Json.hexCode? (c.step.rest.take n) with
      | some code =>
        if (c.step.rest.take n).length < n then .error .malformed
        else if 0x10ffff < code then .error .badValue
        else .ok ([if code.isValidChar then Char.ofNat code else '\ufffd'], c.skip (n + 1))
      | none => .error .malformed
    | none, none, some (_, next) => quotedBreaks (next.rest.length + 1) next []
    | none, none, none => .error .malformed

/-- The rest of a quoted scalar. -/
def quotedRest (quote : Char) : Nat → Cursor → List Char → Except Fault (List Char × Cursor)
  | 0, _, _ => .error .malformed
  | fuel + 1, c, found =>
    match c.rest with
    | [] => .error .malformed
    | ch :: rest =>
      if ch == quote then
        if quote == '\'' && rest.head? == some '\'' then
          quotedRest quote fuel (c.skip 2) (found ++ ['\''])
        else .ok (found, c.step)
      else if ch == '\\' && quote == '"' then do
        let (meant, next) ← quotedEscape c.step
        quotedRest quote fuel next (found ++ meant)
      else if isGap ch then
        let isBlank := fun b => b == ' ' || b == '\t'
        let after := c.skipWhile isBlank
        match after.break? with
        | some (b, next) => do
          let (more, place) ← quotedBreaks (next.rest.length + 1) next []
          quotedRest quote fuel place (found ++ fold b more)
        | none => quotedRest quote fuel after (found ++ c.ahead isBlank)
      else quotedRest quote fuel c.step (found ++ [ch])

/-- The quoted scalar at a place. -/
def quotedScalar (c : Cursor) : Except Fault (List Char × Cursor) :=
  match c.next? with
  | some quote => quotedRest quote (c.rest.length + 1) c.step []
  | none => .error .malformed

/-! ## Block -/

/-- What becomes of the line breaks at the end of a block. -/
inductive Chomping where
  | strip
  | clip
  | keep
deriving DecidableEq, Repr

/-- How a block scalar is laid out. -/
structure BlockHeader where
  chomping : Chomping := .clip
  /-- Indentation in columns, where it is given. -/
  increment : Option Nat := none

/-- The chomping that a sign asks for. -/
def chompingOf? (next : Option Char) : Option Chomping :=
  if next == some '+' then some .keep else if next == some '-' then some .strip else none

/-- The indentation that a digit asks for. -/
def incrementOf? (next : Option Char) : Option Nat :=
  match next with
  | some ch => if ch.isDigit then some (ch.toNat - '0'.toNat) else none
  | none => none

/-- The header of a block scalar, up to the end of its line. -/
def blockHeader (c : Cursor) : Except Fault (BlockHeader × Cursor) :=
  let (header, c) : BlockHeader × Cursor :=
    match chompingOf? c.next? with
    | some chomping =>
      match incrementOf? c.step.next? with
      | some n => (⟨chomping, some n⟩, c.skip 2)
      | none => (⟨chomping, none⟩, c.step)
    | none =>
      match incrementOf? c.next? with
      | some n =>
        match chompingOf? c.step.next? with
        | some chomping => (⟨chomping, some n⟩, c.skip 2)
        | none => (⟨.clip, some n⟩, c.step)
      | none => (⟨.clip, none⟩, c)
  if header.increment == some 0 || !endsWord c.next? then .error .malformed
  else
    let c := c.skipSpaces
    let c := if c.next? == some '#' then c.skipLine else c
    if endsLine c.next? then .ok (header, c.skipBreak) else .error .malformed

/-- The empty lines before the text of a block, and the furthest column that spaces reach. -/
def leadingBreaks : Nat → Cursor → List Char → Nat → List Char × Nat × Cursor
  | 0, c, found, furthest => (found, furthest, c)
  | fuel + 1, c, found, furthest =>
    match c.break? with
    | some (b, next) => leadingBreaks fuel next (found ++ [b]) furthest
    | none =>
      if c.next? == some ' ' then leadingBreaks fuel c.step found (max furthest c.step.column)
      else (found, furthest, c)

/-- The empty lines inside a block of that indentation. -/
def blockBreaks (indent : Nat) : Nat → Cursor → List Char → List Char × Cursor
  | 0, c, found => (found, c)
  | fuel + 1, c, found =>
    let c := c.skipSpacesTo indent
    match c.break? with
    | some (b, next) => blockBreaks indent fuel next (found ++ [b])
    | none => (found, c)

/-- A line of a block goes on at this place. -/
def inBlock (indent : Nat) (c : Cursor) : Bool :=
  c.column == indent && c.next?.isSome

/-- The next character is a space or a tab. -/
def atBlank (c : Cursor) : Bool :=
  c.next? == some ' ' || c.next? == some '\t'

/-- The lines of a block : its text, the line break that ended the last line, and the empty lines
after it. -/
def blockLines (folded : Bool) (indent : Nat) :
    Nat → Cursor → List Char → List Char → List Char × List Char × List Char × Cursor
  | 0, c, found, breaks => (found, [], breaks, c)
  | fuel + 1, c, found, breaks =>
    if inBlock indent c then
      let text := c.ahead fun ch => !isBreak ch
      let ended := c.skip text.length
      let (lineBreak, next) : List Char × Cursor :=
        match ended.break? with
        | some (b, next) => ([b], next)
        | none => ([], ended)
      let (more, place) := blockBreaks indent (next.rest.length + 1) next []
      let found := found ++ breaks ++ text
      if inBlock indent place then
        let joined :=
          if folded && lineBreak == ['\n'] && !atBlank c && !atBlank place then
            if more.isEmpty then [' '] else []
          else lineBreak
        blockLines folded indent fuel place (found ++ joined) more
      else (found, lineBreak, more, place)
    else (found, [], breaks, c)

/-- The block scalar behind its mark, inside the given indentation. -/
def blockScalar (folded : Bool) (outer : Int) (c : Cursor) :
    Except Fault (List Char × Cursor) := do
  let (header, c) ← blockHeader c
  let least := (outer + 1).toNat.max 1
  let (breaks, indent, c) : List Char × Nat × Cursor :=
    match header.increment with
    | none =>
      let (breaks, furthest, c) := leadingBreaks (c.rest.length + 1) c [] 0
      (breaks, max least furthest, c)
    | some n =>
      let indent := least + n - 1
      let (breaks, c) := blockBreaks indent (c.rest.length + 1) c []
      (breaks, indent, c)
  let (text, lineBreak, more, c) := blockLines folded indent (c.rest.length + 1) c [] breaks
  match header.chomping with
  | .strip => .ok (text, c)
  | .clip => .ok (text ++ lineBreak, c)
  | .keep => .ok (text ++ lineBreak ++ more, c)

end JsonShape.Yaml
