import JsonShape.Pattern.Token
import JsonShape.Text.IdentifierText

/-!
# Well-formed patterns

`isWellFormed` tells whether a text is a regular expression : parentheses match, each repetition
has something to repeat, groups are closed before something refers to them, and what is looked for
behind a place has one width. Repetitions count below 4294967295.
-/

namespace JsonShape.Pattern

/-! ## Widths -/

/-- The least and the greatest number of characters that a part of a pattern can match. -/
structure Width where
  least : Nat
  most : Nat
deriving DecidableEq, Repr, Inhabited

namespace Width

/-- Stands for every width that is not bounded. -/
def limit : Nat := Nat.pow 2 64

/-- The widths with those above the limit brought down to it. -/
def bounded (least most : Nat) : Width :=
  ⟨min least limit, min most limit⟩

/-- The width of a place. -/
def zero : Width := ⟨0, 0⟩

/-- The width of one character. -/
def one : Width := ⟨1, 1⟩

/-- One part after the other. -/
def add (a b : Width) : Width :=
  bounded (a.least + b.least) (a.most + b.most)

/-- One part or the other. -/
def either (a b : Width) : Width :=
  ⟨min a.least b.least, max a.most b.most⟩

/-- A part repeated; without a greatest number of times there is no bound, unless the part matches
no characters. -/
def times (w : Width) (fewest : Nat) (most : Option Nat) : Width :=
  match most with
  | some n => bounded (w.least * fewest) (w.most * n)
  | none => bounded (w.least * fewest) (if w.most == 0 then 0 else limit)

end Width

/-! ## Reading -/

/-- How a piece of a pattern takes a repetition. -/
inductive PieceKind where
  | single
  | anchor
  | repeated
deriving DecidableEq, Repr, Inhabited

/-- A piece of a pattern. -/
structure Piece where
  kind : PieceKind
  width : Width
deriving DecidableEq, Repr, Inhabited

/-- A pattern that is being read. -/
structure Reading where
  rest : List Token
  /-- The widths of the groups, in order; an open one has none yet. -/
  groups : List (Option Width) := []
  names : List (String × Nat) := []
  /-- In a look behind, the number of the first group that belongs to it. -/
  behind : Option Nat := none
  /-- The groups that conditions name by number. -/
  conditions : List Nat := []
  /-- Blanks and comments are passed over in the whole pattern. -/
  isExtended : Bool := false
  /-- Repetitions are not allowed. -/
  isTemplate : Bool := false
  hasRepetition : Bool := false
deriving Inhabited

/-- Reads a part of a pattern, if it is well-formed. -/
abbrev Reader := StateT Reading Option

/-- The tokens that are left. -/
def leave (ts : List Token) : Reader Unit :=
  modify fun s => { s with rest := ts }

/-- Passes a character if it comes next. -/
def accept (c : Char) : Reader Bool := do
  match (← get).rest with
  | t :: rest =>
    if t == .plain c then
      leave rest
      pure true
    else pure false
  | [] => pure false

/-- Passes a character that must come next. -/
def expect (c : Char) : Reader Unit := do
  if ← accept c then pure () else failure

/-- The text up to a character. -/
def readUntil (stop : Char) : Reader String := do
  match textUntil? stop (← get).rest with
  | some (s, rest) =>
    leave rest
    pure s
  | none => failure

/-- The name of a group. -/
def readName (stop : Char) : Reader String := do
  let name ← readUntil stop
  if Text.isIdentifier name then pure name else failure

/-! ## Groups -/

/-- The width of a group that is closed. -/
def closedWidth? (s : Reading) (number : Nat) : Option Width :=
  match number with
  | 0 => none
  | n + 1 => (s.groups[n]?).join

/-- What is looked for behind a place refers only to closed groups outside it. -/
def checkBehind (number : Nat) : Reader Unit := do
  let s ← get
  match s.behind with
  | none => pure ()
  | some first => if (closedWidth? s number).isSome && number < first then pure () else failure

/-- A reference to a group. -/
def reference (number : Nat) : Reader Piece := do
  match closedWidth? (← get) number with
  | none => failure
  | some w =>
    checkBehind number
    pure ⟨.single, w⟩

/-- A reference to a group by name. -/
def namedReference : Reader Piece := do
  let name ← readName ')'
  match (← get).names.lookup name with
  | some number => reference number
  | none => failure

/-- Opens a group and gives its number. -/
def openGroup (name : Option String) : Reader Nat := do
  let s ← get
  let number := s.groups.length + 1
  match name with
  | none => set { s with groups := s.groups ++ [none] }
  | some n =>
    if (s.names.lookup n).isSome then failure
    else set { s with groups := s.groups ++ [none], names := (n, number) :: s.names }
  pure number

/-- Closes a group. -/
def closeGroup (number : Nat) (w : Width) : Reader Unit :=
  modify fun s => { s with groups := s.groups.set (number - 1) (some w) }

/-- The group that a condition asks for, by name or by number. -/
def condition : Reader Unit := do
  let name ← readUntil ')'
  if Text.isIdentifier name then
    match (← get).names.lookup name with
    | some number => checkBehind number
    | none => failure
  else if name.toList.all Text.isAsciiDigit && digitsValue 10 name.toList != 0 then
    let number := digitsValue 10 name.toList
    modify fun s => { s with conditions := number :: s.conditions }
    checkBehind number
  else failure

/-! ## Flags -/

/-- The letters of flags. -/
def flagLetters : List Char := ['i', 'L', 'm', 's', 'x', 'a', 't', 'u']

/-- The flags that say what a letter is; a pattern has one of them. -/
def alphabetFlags : List Char := ['a', 'u', 'L']

/-- What flags apply to. -/
inductive Flags where
  | whole (on : List Char)
  | group (on off : List Char)
deriving DecidableEq, Repr, Inhabited

/-- The flags turned on and the character that ends them. -/
def flagsOn? : List Char → List Token → Option (List Char × Char × List Token)
  | on, .plain c :: rest =>
    if [')', '-', ':'].contains c then some (on, c, rest)
    else if !flagLetters.contains c || c == 'L' then none
    else if alphabetFlags.contains c && on.any (fun d => alphabetFlags.contains d && d != c) then
      none
    else flagsOn? (c :: on) rest
  | _, _ => none

/-- The flags turned off, up to a colon. -/
def flagsOff? : List Char → List Token → Option (List Char × List Token)
  | off, .plain c :: rest =>
    if c == ':' && !off.isEmpty then some (off, rest)
    else if !flagLetters.contains c || alphabetFlags.contains c then none
    else flagsOff? (c :: off) rest
  | _, _ => none

/-- The flags behind a question mark. -/
def flags : Reader Flags := do
  match flagsOn? [] (← get).rest with
  | some (on, ')', rest) =>
    leave rest
    if on.isEmpty then failure else pure (.whole on)
  | some (on, ':', rest) =>
    leave rest
    if on.contains 't' then failure else pure (.group on [])
  | some (on, _, rest) =>
    match flagsOff? [] rest with
    | none => failure
    | some (off, rest) =>
      leave rest
      if on.contains 't' || off.contains 't' || on.any off.contains then failure
      else pure (.group on off)
  | none => failure

/-! ## Pieces -/

/-- A blank that an extended pattern passes over. -/
def isPatternBlank (c : Char) : Bool :=
  [' ', '\t', '\n', '\r', '\x0b', '\x0c'].contains c

/-- A repetition counts below this. -/
def repetitionLimit : Nat := 4294967295

/-- The bounds of a repetition behind an opening brace. Without them the brace stands for itself. -/
def bounds? (ts : List Token) : Option (Nat × Option Nat × List Token) :=
  let low := charsAt Text.isAsciiDigit ts.length ts
  let least := digitsValue 10 low.1
  match low.2 with
  | .plain '}' :: rest => if low.1.isEmpty then none else some (least, some least, rest)
  | .plain ',' :: ts =>
    let high := charsAt Text.isAsciiDigit ts.length ts
    match high.2 with
    | .plain '}' :: rest =>
      some (least, if high.1.isEmpty then none else some (digitsValue 10 high.1), rest)
    | _ => none
  | _ => none

/-- The pieces with the last one repeated. -/
def repeated (fewest : Nat) (most : Option Nat) : List Piece → Reader (List Piece)
  | ⟨.single, w⟩ :: before => do
    if repetitionLimit ≤ fewest || most.any fun n => repetitionLimit ≤ n || n < fewest then failure
    else
      unless ← accept '?' do
        let _ ← accept '+'
      modify fun s => { s with hasRepetition := true }
      pure (⟨.repeated, w.times fewest most⟩ :: before)
  | _ => failure

/-- The piece that an escape is. -/
def escapePiece (c : Char) : Reader Piece := do
  match escape? c (← get).rest with
  | none => failure
  | some (e, rest) =>
    leave rest
    match e with
    | .anchor => pure ⟨.anchor, .zero⟩
    | .group number => reference number
    | _ => pure ⟨.single, .one⟩

/-- The set of characters behind an opening bracket. -/
def setPiece : Reader Piece := do
  match setRest? (← get).rest with
  | none => failure
  | some rest =>
    leave rest
    pure ⟨.single, .one⟩

/-- Passes a comment up to a character; where it need not end there, the pattern may end first. -/
def comment (stop : Char) (mayEnd : Bool) : Reader Unit := do
  match (← get).rest.dropWhile (· != .plain stop) with
  | _ :: rest => leave rest
  | [] => if mayEnd then leave [] else failure

/-- The width of pieces in a row. -/
def widthOf (pieces : List Piece) : Width :=
  pieces.foldr (fun p w => w.add p.width) .zero

/-- What is looked for behind a place has one width, and not too great a one. -/
def checkWidth (w : Width) : Reader Unit :=
  if w.least == w.most && w.least ≤ repetitionLimit then pure () else failure

/-- What a group is. -/
inductive GroupKind where
  /-- A group that can be referred to. -/
  | capture (name : Option String)
  /-- A group that cannot, with whether blanks are passed over in it. -/
  | cluster (extended : Bool)
  | ahead
  | behind
  | choice
  | backReference
  | comment
  /-- Flags for the whole pattern. -/
  | overall (on : List Char)
deriving DecidableEq, Repr, Inhabited

/-- The kind of a group whose parenthesis and question mark are read. -/
def marked (extended : Bool) : Reader GroupKind := do
  match (← get).rest with
  | .plain 'P' :: .plain '<' :: rest =>
    leave rest
    pure (.capture (some (← readName '>')))
  | .plain 'P' :: .plain '=' :: rest =>
    leave rest
    pure .backReference
  | .plain '<' :: .plain c :: rest =>
    leave rest
    if c == '=' || c == '!' then pure .behind else failure
  | .plain c :: rest =>
    if c == ':' || c == '>' then
      leave rest
      pure (.cluster extended)
    else if c == '#' then
      leave rest
      pure .comment
    else if c == '=' || c == '!' then
      leave rest
      pure .ahead
    else if c == '(' then
      leave rest
      pure .choice
    else
      match ← flags with
      | .whole on => pure (.overall on)
      | .group on off =>
        pure (.cluster ((extended || on.contains 'x') && !off.contains 'x'))
  | _ => failure

/-- The kind of a group whose parenthesis is read. -/
def groupKind (extended : Bool) : Reader GroupKind := do
  if ← accept '?' then marked extended else pure (.capture none)

mutual

/-- Alternatives, up to a closing parenthesis or the end. Flags for the whole pattern may stand
only at its start. -/
def alternatives : Nat → (isTop isFirst extended : Bool) → Reader Width
  | 0, _, _, _ => failure
  | fuel + 1, isTop, isFirst, extended => do
    let s ← get
    let extended := if isTop then s.isExtended else extended
    let w := widthOf (← pieces fuel isFirst extended [])
    if ← accept '|' then
      let other ← alternatives fuel isTop false extended
      pure (w.either other)
    else pure w

/-- The pieces after those already found, the last one first. -/
def pieces : Nat → (isFirst extended : Bool) → List Piece → Reader (List Piece)
  | 0, _, _, _ => failure
  | fuel + 1, isFirst, extended, found => do
    match (← get).rest with
    | [] => pure found
    | .escape c :: rest =>
      leave rest
      let p ← escapePiece c
      pieces fuel isFirst extended (p :: found)
    | .plain c :: rest =>
      if c == '|' || c == ')' then pure found
      else
        leave rest
        if extended && isPatternBlank c then pieces fuel isFirst extended found
        else if extended && c == '#' then
          comment '\n' true
          pieces fuel isFirst extended found
        else
          match c with
          | '[' =>
            let p ← setPiece
            pieces fuel isFirst extended (p :: found)
          | '?' => pieces fuel isFirst extended (← repeated 0 (some 1) found)
          | '*' => pieces fuel isFirst extended (← repeated 0 none found)
          | '+' => pieces fuel isFirst extended (← repeated 1 none found)
          | '{' =>
            match bounds? rest with
            | none => pieces fuel isFirst extended (⟨.single, .one⟩ :: found)
            | some (least, most, rest) =>
              leave rest
              pieces fuel isFirst extended (← repeated least most found)
          | '(' =>
            let (p, extended) ← group fuel (isFirst && found.isEmpty) extended
            pieces fuel isFirst extended (p.toList ++ found)
          | '^' => pieces fuel isFirst extended (⟨.anchor, .zero⟩ :: found)
          | '$' => pieces fuel isFirst extended (⟨.anchor, .zero⟩ :: found)
          | _ => pieces fuel isFirst extended (⟨.single, .one⟩ :: found)

/-- A group behind its parenthesis, as a piece if it is one, and whether blanks are passed over
behind it. -/
def group : Nat → (isStart extended : Bool) → Reader (Option Piece × Bool)
  | 0, _, _ => failure
  | fuel + 1, isStart, extended => do
    match ← groupKind extended with
    | .capture name =>
      let number ← openGroup name
      let w ← alternatives fuel false false extended
      expect ')'
      closeGroup number w
      pure (some ⟨.single, w⟩, extended)
    | .cluster inner =>
      let w ← alternatives fuel false false inner
      expect ')'
      pure (some ⟨.single, w⟩, extended)
    | .ahead =>
      let _ ← alternatives fuel false false extended
      expect ')'
      pure (some ⟨.single, .zero⟩, extended)
    | .behind =>
      let outer := (← get).behind
      modify fun s => { s with behind := outer.or (some (s.groups.length + 1)) }
      checkWidth (← alternatives fuel false false extended)
      modify fun s => { s with behind := outer }
      expect ')'
      pure (some ⟨.single, .zero⟩, extended)
    | .choice =>
      condition
      let yes := widthOf (← pieces fuel false extended [])
      let no ← if ← accept '|' then pieces fuel false extended [] else pure []
      expect ')'
      pure (some ⟨.single, yes.either (widthOf no)⟩, extended)
    | .backReference => pure (some (← namedReference), extended)
    | .comment =>
      comment ')' false
      pure (none, extended)
    | .overall on =>
      if isStart then
        modify fun s =>
          { s with
            isExtended := s.isExtended || on.contains 'x'
            isTemplate := s.isTemplate || on.contains 't' }
        pure (none, (← get).isExtended)
      else failure

end

/-- The text is a regular expression. -/
def isWellFormed (s : String) : Bool :=
  match tokens? s.toList with
  | none => false
  | some ts =>
    match (alternatives (3 * ts.length + 4) true true false).run { rest := ts } with
    | none => false
    | some (_, r) =>
      r.rest.isEmpty && r.conditions.all (· ≤ r.groups.length) &&
        !(r.isTemplate && r.hasRepetition)

end JsonShape.Pattern
