import JsonShape.Text.CharClass

/-!
# Tokens of a pattern

A pattern is a regular expression. A backslash and the character behind it make one token, every
other character makes one of its own. `escape?` and `setEscape?` tell what a backslash with its
character stands for, outside and inside a set of characters, and `setRest?` passes over a set.
-/

namespace JsonShape.Pattern

/-- A character, or a character behind a backslash. -/
inductive Token where
  | plain (c : Char)
  | escape (c : Char)
deriving DecidableEq, Repr, Inhabited

/-- The tokens of a pattern; a backslash at its end makes none. -/
def tokens? : List Char → Option (List Token)
  | [] => some []
  | ['\\'] => none
  | '\\' :: c :: rest => (tokens? rest).map (Token.escape c :: ·)
  | c :: rest => (tokens? rest).map (Token.plain c :: ·)

/-! ## Digits and names -/

/-- An octal digit. -/
def isOctalDigit (c : Char) : Bool :=
  '0' ≤ c && c ≤ '7'

/-- A hexadecimal digit. -/
def isHexDigit (c : Char) : Bool :=
  Text.isAsciiDigit c || ('a' ≤ c && c ≤ 'f') || ('A' ≤ c && c ≤ 'F')

/-- The value of a hexadecimal digit. -/
def digitValue (c : Char) : Nat :=
  if Text.isAsciiDigit c then c.toNat - '0'.toNat
  else if 'a' ≤ c then c.toNat - 'a'.toNat + 10
  else c.toNat - 'A'.toNat + 10

/-- The number that digits write in a base. -/
def digitsValue (base : Nat) (cs : List Char) : Nat :=
  cs.foldl (fun n c => n * base + digitValue c) 0

/-- The characters of a kind at the start, at most `limit` of them, and what follows. -/
def charsAt (isKind : Char → Bool) : Nat → List Token → List Char × List Token
  | limit + 1, .plain c :: rest =>
    if isKind c then
      let found := charsAt isKind limit rest
      (c :: found.1, found.2)
    else ([], .plain c :: rest)
  | _, ts => ([], ts)

/-- The text up to a character and what follows that character; it holds no backslash and is not
empty. -/
def textUntil? (stop : Char) (ts : List Token) : Option (String × List Token) :=
  let found := charsAt (· != stop) ts.length ts
  match found.1, found.2 with
  | [], _ => none
  | cs, .plain _ :: rest => some (String.ofList cs, rest)
  | _, _ => none

/-! ## Escapes -/

/-- What an escape stands for. -/
inductive Escaped where
  | character (code : Nat)
  | category
  | anchor
  | group (number : Nat)
deriving DecidableEq, Repr, Inhabited

/-- The letters that stand for a character without a sign of its own. -/
def signCodes : List (Char × Nat) :=
  [('a', 7), ('b', 8), ('f', 12), ('n', 10), ('r', 13), ('t', 9), ('v', 11), ('\\', 92)]

/-- The letters that stand for a category of characters. -/
def categoryLetters : List Char := ['d', 'D', 's', 'S', 'w', 'W']

/-- The letters that stand for a place between characters. -/
def anchorLetters : List Char := ['A', 'b', 'B', 'Z']

/-- The number of hexadecimal digits behind a letter that takes some. -/
def hexLengths : List (Char × Nat) := [('x', 2), ('u', 4), ('U', 8)]

/-- The character can stand in the name of a character. -/
def isNameChar (c : Char) : Bool :=
  c.isAlphanum || c == ' ' || c == '-'

/-- A character given by its code or by its name, behind the letter that says so. -/
def codedAt? (letter : Char) (ts : List Token) : Option (Escaped × List Token) :=
  match hexLengths.lookup letter with
  | some n =>
    let found := charsAt isHexDigit n ts
    let code := digitsValue 16 found.1
    if found.1.length == n && code ≤ 0x10FFFF then some (.character code, found.2) else none
  | none =>
    match ts with
    | .plain '{' :: ts =>
      match textUntil? '}' ts with
      | some (name, rest) =>
        if name.toList.all isNameChar then some (.character 0, rest) else none
      | none => none
    | _ => none

/-- A character given by octal digits, of which `first` is the first. -/
def octalAt? (first : Char) (ts : List Token) : Option (Escaped × List Token) :=
  let found := charsAt isOctalDigit 2 ts
  let code := digitsValue 8 (first :: found.1)
  if code ≤ 0o377 then some (.character code, found.2) else none

/-- A character that means itself; of letters and digits none does. -/
def ownMeaning? (c : Char) (ts : List Token) : Option (Escaped × List Token) :=
  if c.isAlphanum then none else some (.character c.toNat, ts)

/-- What an escape stands for in a set of characters. -/
def setEscape? (c : Char) (ts : List Token) : Option (Escaped × List Token) :=
  match signCodes.lookup c with
  | some code => some (.character code, ts)
  | none =>
    if categoryLetters.contains c then some (.category, ts)
    else if ['x', 'u', 'U', 'N'].contains c then codedAt? c ts
    else if isOctalDigit c then octalAt? c ts
    else ownMeaning? c ts

/-- What digits behind a backslash stand for : three octal digits are a character, else the first
one or two are the number of a group. -/
def numberAt? (first : Char) (ts : List Token) : Option (Escaped × List Token) :=
  match charsAt Text.isAsciiDigit 1 ts with
  | ([second], ts) =>
    let third := charsAt isOctalDigit 1 ts
    if isOctalDigit first && isOctalDigit second && !third.1.isEmpty then
      let code := digitsValue 8 (first :: second :: third.1)
      if code ≤ 0o377 then some (.character code, third.2) else none
    else some (.group (digitsValue 10 [first, second]), ts)
  | (_, ts) => some (.group (digitsValue 10 [first]), ts)

/-- What an escape stands for outside sets. -/
def escape? (c : Char) (ts : List Token) : Option (Escaped × List Token) :=
  if anchorLetters.contains c then some (.anchor, ts)
  else if categoryLetters.contains c then some (.category, ts)
  else
    match signCodes.lookup c with
    | some code => some (.character code, ts)
    | none =>
      if ['x', 'u', 'U', 'N'].contains c then codedAt? c ts
      else if c == '0' then octalAt? c ts
      else if Text.isAsciiDigit c then numberAt? c ts
      else ownMeaning? c ts

/-! ## Sets -/

/-- A member of a set : the code of a character, none for a category. -/
def member? (t : Token) (ts : List Token) : Option (Option Nat × List Token) :=
  match t with
  | .plain c => some (some c.toNat, ts)
  | .escape c =>
    match setEscape? c ts with
    | some (.character code, rest) => some (some code, rest)
    | some (_, rest) => some (none, rest)
    | none => none

/-- What follows the members of a set. A bracket that comes first is a member, a hyphen before the
closing bracket too, and a range goes from a character to one that is not below it. -/
def membersRest? : Nat → Bool → List Token → Option (List Token)
  | 0, _, _ => none
  | _, _, [] => none
  | fuel + 1, isFirst, t :: rest =>
    if t == .plain ']' && !isFirst then some rest
    else
      match member? t rest with
      | none => none
      | some (low, .plain '-' :: u :: rest) =>
        if u == .plain ']' then some rest
        else
          match low, member? u rest with
          | some l, some (some h, rest) => if l ≤ h then membersRest? fuel false rest else none
          | _, _ => none
      | some (_, rest) => membersRest? fuel false rest

/-- What follows a set whose opening bracket is read. -/
def setRest? (ts : List Token) : Option (List Token) :=
  match ts with
  | .plain '^' :: rest => membersRest? ts.length true rest
  | _ => membersRest? (ts.length + 1) true ts

end JsonShape.Pattern
