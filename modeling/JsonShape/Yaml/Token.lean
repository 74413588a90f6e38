import JsonShape.Yaml.ScalarText
import JsonShape.Text.Utf8

/-!
# Tokens of YAML

`tokens` cuts a text into tokens. Block structure, which the text shows by indentation, becomes
tokens of its own : the start of a sequence or of a mapping, and the end of either. That a scalar
or a bracket was a key is known only when the colon behind it comes : until then it is kept as a
`Candidate`, and the tokens that mark the key are put in front of it afterwards. A key that is
not in brackets fits on one line and in 1024 characters.
-/

namespace JsonShape.Yaml

/-- A line in front of a document that says how it is to be read. -/
inductive Directive where
  | version (major : Nat)
  /-- A handle for tags and what it stands for. -/
  | handle (name meant : String)
  | other
deriving DecidableEq, Repr, Inhabited

/-- A token. -/
inductive Token where
  | directive (d : Directive)
  | documentStart
  | documentEnd
  | sequenceStart
  | mappingStart
  | blockEnd
  | flowSequenceStart
  | flowSequenceEnd
  | flowMappingStart
  | flowMappingEnd
  /-- The hyphen of an item. -/
  | item
  /-- The comma inside brackets. -/
  | comma
  | key
  | value
  | alias (name : String)
  | anchor (name : String)
  /-- A tag with its handle; without one it stands as it is. -/
  | tag (handle : Option String) (suffix : String)
  | scalar (text : String) (isPlain : Bool)
deriving DecidableEq, Repr, Inhabited

/-- A token that may turn out to be a key. -/
structure Candidate where
  /-- Its place among the tokens. -/
  position : Nat
  /-- The text is no YAML unless it is a key. -/
  isRequired : Bool
  index : Nat
  line : Nat
  column : Nat
deriving Repr, Inhabited

/-- The state between two tokens. -/
structure Lexer where
  cursor : Cursor
  tokens : List Token := []
  /-- Column of the current block; -1 outside all blocks. -/
  indent : Int := -1
  /-- Columns of the blocks around the current one, the nearest first. -/
  outer : List Int := []
  /-- Number of open brackets. -/
  depth : Nat := 0
  keyAllowed : Bool := true
  /-- The latest candidate at each depth. -/
  candidates : List (Nat × Candidate) := []
deriving Inhabited

namespace Lexer

/-- The state with a token added. -/
def add (s : Lexer) (t : Token) : Lexer :=
  { s with tokens := s.tokens ++ [t] }

/-- A token added and some characters passed. -/
def addPast (s : Lexer) (t : Token) (width : Nat) : Lexer :=
  { s.add t with cursor := s.cursor.skip width }

/-! ## Candidates -/

/-- The candidate at the current depth. -/
def candidate? (s : Lexer) : Option Candidate :=
  s.candidates.lookup s.depth

/-- The state without the candidate at the current depth. -/
def forget (s : Lexer) : Lexer :=
  { s with candidates := s.candidates.filter fun e => e.1 != s.depth }

/-- The candidate at the current depth is no key after all. -/
def dropCandidate (s : Lexer) : Except Fault Lexer :=
  match s.candidate? with
  | some k => if k.isRequired then .error .malformed else .ok s.forget
  | none => .ok s

/-- The candidate has been left behind : another line, or too many characters. -/
def isStale (s : Lexer) (k : Candidate) : Bool :=
  k.line != s.cursor.line || 1024 < s.cursor.index - k.index

/-- The state without the candidates that have been left behind. -/
def dropStale (s : Lexer) : Except Fault Lexer :=
  if s.candidates.any fun e => s.isStale e.2 && e.2.isRequired then .error .malformed
  else .ok { s with candidates := s.candidates.filter fun e => !s.isStale e.2 }

/-- The token that comes next may be a key, where one is allowed. -/
def saveCandidate (s : Lexer) : Except Fault Lexer :=
  if s.keyAllowed then do
    let s ← s.dropCandidate
    let k : Candidate :=
      { position := s.tokens.length
        isRequired := s.depth == 0 && s.indent == s.cursor.column
        index := s.cursor.index
        line := s.cursor.line
        column := s.cursor.column }
    .ok { s with candidates := (s.depth, k) :: s.candidates }
  else .ok s

/-! ## Indentation -/

/-- The blocks that end where the text goes on at a column : how many, and what is left. -/
def closing (column : Int) : Int → List Int → Nat → Nat × Int × List Int
  | indent, [], n => (n, indent, [])
  | indent, above :: outer, n =>
    if indent > column then closing column above outer (n + 1) else (n, indent, above :: outer)

/-- The blocks ended that lie behind a column. Inside brackets indentation means nothing. -/
def unwind (s : Lexer) (column : Int) : Lexer :=
  if s.depth != 0 then s
  else
    let (n, indent, outer) := closing column s.indent s.outer 0
    { s with
      tokens := s.tokens ++ List.replicate n Token.blockEnd
      indent := indent
      outer := outer }

/-- A block opened at a column, if the column lies behind the current one. -/
def openBlock? (s : Lexer) (column : Nat) : Option Lexer :=
  if s.indent < column then some { s with indent := column, outer := s.indent :: s.outer }
  else none

/-- A block opened at the cursor, with the token that starts it. -/
def openHere (s : Lexer) (start : Token) : Lexer :=
  match s.openBlock? s.cursor.column with
  | some s' => s'.add start
  | none => s

/-! ## Names and tags -/

/-- The name behind `&` or `*`. -/
def name (c : Cursor) : Except Fault (String × Cursor) :=
  let found := c.ahead isNameChar
  let after := c.skip found.length
  if found.isEmpty then .error .malformed
  else if endsToken after.next? ||
      (after.next?.map "?:,]\x7d%@\x60".toList.contains).getD false then
    .ok (String.ofList found, after)
  else .error .malformed

/-- The characters of tags. -/
def isUriChar (c : Char) : Bool :=
  c.isAlphanum || "-;/?:@&=+$,_.!~*'()[]%".toList.contains c

/-- Bytes written as a percent sign and two hexadecimal digits each. -/
def uriBytes : Nat → List Char → List UInt8 → Except Fault (List UInt8 × List Char)
  | 0, _, _ => .error .malformed
  | fuel + 1, cs, found =>
    match cs with
    | '%' :: a :: b :: rest =>
      match Json.hexCode? [a, b] with
      | some n => uriBytes fuel rest (found ++ [n.toUInt8])
      | none => .error .malformed
    | '%' :: _ => .error .malformed
    | _ => .ok (found, cs)

/-- The text of a tag with its bytes decoded. -/
def uriText : Nat → List Char → List Char → Except Fault (List Char)
  | 0, _, _ => .error .malformed
  | fuel + 1, cs, found =>
    match cs with
    | [] => .ok found
    | '%' :: _ => do
      let (bytes, rest) ← uriBytes (cs.length + 1) cs []
      match Utf8.decode bytes with
      | .ok s => uriText fuel rest (found ++ s.toList)
      | .error _ => .error .malformed
    | c :: rest => uriText fuel rest (found ++ [c])

/-- The text of a tag at a place. -/
def uri (c : Cursor) : Except Fault (String × Cursor) := do
  let found := c.ahead isUriChar
  if found.isEmpty then .error .malformed
  else
    let text ← uriText (found.length + 1) found []
    .ok (String.ofList text, c.skip found.length)

/-- The handle of a tag : a single mark, or a name between two. -/
def tagHandle (c : Cursor) : Except Fault (String × Cursor) :=
  if c.next? != some '!' then .error .malformed
  else if c.step.next? == some ' ' then .ok ("!", c.step)
  else
    let found := c.step.ahead isNameChar
    let after := c.step.skip found.length
    if after.next? == some '!' then .ok ("!" ++ String.ofList found ++ "!", after.step)
    else .error .malformed

/-- The tag at a place. -/
def tag (c : Cursor) : Except Fault (Token × Cursor) := do
  let (token, after) ←
    if c.step.next? == some '<' then do
      let (suffix, after) ← uri (c.skip 2)
      if after.next? == some '>' then .ok (Token.tag none suffix, after.step)
      else .error .malformed
    else if endsToken c.step.next? then .ok (Token.tag none "!", c.step)
    else do
      let word := c.step.ahead fun ch => ch != ' ' && !isBreak ch
      let (handle, after) ← if word.contains '!' then tagHandle c else .ok ("!", c.step)
      let (suffix, after) ← uri after
      .ok (Token.tag (some handle) suffix, after)
  if endsWord after.next? then .ok (token, after) else .error .malformed

/-! ## Directives -/

/-- Digits at a place. -/
def number (c : Cursor) : Except Fault (Nat × Cursor) :=
  let found := c.ahead Char.isDigit
  if found.isEmpty then .error .malformed
  else .ok (found.foldl (fun n d => 10 * n + (d.toNat - '0'.toNat)) 0, c.skip found.length)

/-- What a directive of that name says. -/
def directiveValue (name : String) (c : Cursor) : Except Fault (Directive × Cursor) := do
  if name == "YAML" then
    let (major, c) ← number c.skipSpaces
    if c.next? != some '.' then .error .malformed
    else
      let (_, c) ← number c.step
      if endsWord c.next? then .ok (.version major, c) else .error .malformed
  else if name == "TAG" then
    let (handle, c) ← tagHandle c.skipSpaces
    if c.next? != some ' ' then .error .malformed
    else
      let (meant, c) ← uri c.skipSpaces
      if endsWord c.next? then .ok (.handle handle meant, c) else .error .malformed
  else .ok (.other, c.skipLine)

/-- The directive at a place, up to the end of its line. -/
def directive (c : Cursor) : Except Fault (Directive × Cursor) := do
  let name := c.step.ahead isNameChar
  let after := c.step.skip name.length
  if name.isEmpty || !endsWord after.next? then .error .malformed
  else
    let (d, c) ← directiveValue (String.ofList name) after
    let c := c.skipSpaces
    let c := if c.next? == some '#' then c.skipLine else c
    if endsLine c.next? then .ok (d, c.skipBreak) else .error .malformed

/-! ## One token -/

/-- A token that stands outside all blocks. -/
def outermost (s : Lexer) : Except Fault Lexer := do
  let s ← (s.unwind (-1)).dropCandidate
  .ok { s with keyAllowed := false }

/-- An opening bracket, which may start a key. -/
def openBracket (s : Lexer) (t : Token) : Except Fault Lexer := do
  let s ← s.saveCandidate
  .ok { s.addPast t 1 with depth := s.depth + 1, keyAllowed := true }

/-- A closing bracket. -/
def closeBracket (s : Lexer) (t : Token) : Except Fault Lexer := do
  let s ← s.dropCandidate
  if s.depth == 0 then .error .malformed
  else .ok { s.addPast t 1 with depth := s.depth - 1, keyAllowed := false }

/-- A hyphen or a question mark, which may open a block. -/
def blockMark (s : Lexer) (start t : Token) : Except Fault Lexer := do
  if s.depth == 0 && !s.keyAllowed then .error .malformed
  else
    let s := if s.depth == 0 then s.openHere start else s
    let s ← s.dropCandidate
    .ok (s.addPast t 1)

/-- A colon : it makes the candidate a key, or follows a key that was marked. -/
def colon (s : Lexer) : Except Fault Lexer :=
  match s.candidate? with
  | some k =>
    let s := s.forget
    let keyed := { s with tokens := s.tokens.insertIdx k.position Token.key }
    let opened :=
      if s.depth != 0 then keyed
      else
        match keyed.openBlock? k.column with
        | some o => { o with tokens := o.tokens.insertIdx k.position Token.mappingStart }
        | none => keyed
    .ok { opened.addPast .value 1 with keyAllowed := false }
  | none => do
    let s ← s.blockMark .mappingStart .value
    .ok { s with keyAllowed := s.depth == 0 }

/-- A token that may be a key, read by the given reader. -/
def keyLike (s : Lexer) (read : Cursor → Except Fault (Token × Cursor)) : Except Fault Lexer := do
  let s ← s.saveCandidate
  let (t, after) ← read s.cursor
  .ok { s.add t with cursor := after, keyAllowed := false }

/-- A block scalar; a key may follow it. -/
def block (s : Lexer) (folded : Bool) : Except Fault Lexer := do
  let s ← s.dropCandidate
  let (text, after) ← blockScalar folded s.indent s.cursor.step
  .ok { s.add (.scalar (String.ofList text) false) with cursor := after, keyAllowed := true }

/-- A plain scalar; a key may follow it if it ended at the start of a line. -/
def plain (s : Lexer) : Except Fault Lexer := do
  let s ← s.saveCandidate
  let found := plainScalar (s.depth != 0) (s.indent + 1).toNat s.cursor
  .ok { s.add (.scalar (String.ofList found.text) true) with
    cursor := found.cursor
    keyAllowed := found.keyAllowed }

/-- A quoted scalar at a place. -/
def quoted (c : Cursor) : Except Fault (Token × Cursor) := do
  let (text, after) ← quotedScalar c
  .ok (.scalar (String.ofList text) false, after)

/-- An alias or an anchor at a place. -/
def named (make : String → Token) (c : Cursor) : Except Fault (Token × Cursor) := do
  let (n, after) ← name c.step
  .ok (make n, after)

/-- A plain scalar can start here. -/
def startsPlain (s : Lexer) (ch : Char) : Bool :=
  if "-?:".toList.contains ch then
    !endsToken s.cursor.second? && (ch == '-' || s.depth == 0)
  else !isGap ch && !",[]\x7b\x7d#&*!|>'\"%@\x60".toList.contains ch

/-- The spaces, comments and line breaks before a token passed; outside brackets a key may start
on a new line. -/
def toToken : Nat → Lexer → Lexer
  | 0, s => s
  | fuel + 1, s =>
    let c := s.cursor.skipSpaces
    let c := if c.next? == some '#' then c.skipLine else c
    match c.break? with
    | some (_, next) =>
      toToken fuel { s with cursor := next, keyAllowed := s.keyAllowed || s.depth == 0 }
    | none => { s with cursor := c }

/-- The token at the cursor. -/
def token (s : Lexer) (ch : Char) : Except Fault Lexer := do
  let c := s.cursor
  if ch == '%' && c.column == 0 then
    let s ← s.outermost
    let (d, after) ← directive c
    .ok { s.add (.directive d) with cursor := after }
  else if c.column == 0 && c.atMarker '-' then
    let s ← s.outermost
    .ok (s.addPast .documentStart 3)
  else if c.column == 0 && c.atMarker '.' then
    let s ← s.outermost
    .ok (s.addPast .documentEnd 3)
  else if ch == '[' then s.openBracket .flowSequenceStart
  else if ch == '\x7b' then s.openBracket .flowMappingStart
  else if ch == ']' then s.closeBracket .flowSequenceEnd
  else if ch == '\x7d' then s.closeBracket .flowMappingEnd
  else if ch == ',' then
    let s ← s.dropCandidate
    .ok { s.addPast .comma 1 with keyAllowed := true }
  else if ch == '-' && endsToken c.second? then
    let s ← s.blockMark .sequenceStart .item
    .ok { s with keyAllowed := true }
  else if ch == '?' && (s.depth != 0 || endsToken c.second?) then
    let s ← s.blockMark .mappingStart .key
    .ok { s with keyAllowed := s.depth == 0 }
  else if ch == ':' && (s.depth != 0 || endsToken c.second?) then s.colon
  else if ch == '*' then s.keyLike (named .alias)
  else if ch == '&' then s.keyLike (named .anchor)
  else if ch == '!' then s.keyLike tag
  else if ch == '|' && s.depth == 0 then s.block false
  else if ch == '>' && s.depth == 0 then s.block true
  else if ch == '\'' || ch == '"' then s.keyLike quoted
  else if s.startsPlain ch then s.plain
  else .error .malformed

/-- All tokens from a state on. -/
def run : Nat → Lexer → Except Fault (List Token)
  | 0, _ => .error .malformed
  | fuel + 1, s => do
    let s ← (toToken (s.cursor.rest.length + 1) s).dropStale
    let s := s.unwind s.cursor.column
    match s.cursor.next? with
    | none =>
      let s ← s.outermost
      .ok s.tokens
    | some ch => run fuel (← s.token ch)

end Lexer

/-- A character that a text may hold. -/
def isAllowed (c : Char) : Bool :=
  let n := c.toNat
  n == 0x9 || n == 0xA || n == 0xD || (0x20 ≤ n && n ≤ 0x7E) || n == 0x85 ||
    (0xA0 ≤ n && n ≤ 0xFFFD) || 0x10000 ≤ n

/-- The tokens of a text, after a byte-order mark at its start. -/
def tokens (text : String) : Except Fault (List Token) :=
  let cs := text.toList
  if !cs.all isAllowed then .error .malformed
  else
    let start : Cursor := { rest := cs }
    let start := if start.next? == some '\ufeff' then start.step else start
    Lexer.run (cs.length + 1) { cursor := start }

end JsonShape.Yaml
