import JsonShape.Number.Decimal
import JsonShape.Text.CharClass

/-!
# Number literals

A JSON number is an optional minus, a whole part without leading zeros, and optionally a fraction
and an exponent. `NumberLiteral.scan` reads the longest one at the start of a text. A point
without digits after it, or an exponent mark without digits, spoils the literal : no shorter one
is taken instead. `NumberLiteral.ofText?` takes a whole text.
-/

namespace JsonShape

open Text (isAsciiDigit)

/-- The parts of a number literal, by their characters. -/
structure NumberLiteral where
  negative : Bool
  whole : List Char
  fraction : Option (List Char)
  /-- Whether the exponent is negative, and its digits. -/
  exponent : Option (Bool × List Char)
deriving DecidableEq, Repr

namespace NumberLiteral

/-- The digits at the start and what follows them. -/
def digits (cs : List Char) : List Char × List Char :=
  (cs.takeWhile isAsciiDigit, cs.dropWhile isAsciiDigit)

/-- A whole part : a single zero, or digits that start with another one. -/
def scanWhole : List Char → Option (List Char × List Char)
  | '0' :: rest => some (['0'], rest)
  | cs =>
    match digits cs with
    | ([], _) => none
    | found => some found

/-- A fraction, if a point follows. -/
def scanFraction : List Char → Option (Option (List Char) × List Char)
  | '.' :: rest =>
    match digits rest with
    | ([], _) => none
    | (found, rest') => some (some found, rest')
  | cs => some (none, cs)

/-- Sign of an exponent : whether it is negative, and what follows the sign. -/
def scanSign : List Char → Bool × List Char
  | '-' :: rest => (true, rest)
  | '+' :: rest => (false, rest)
  | cs => (false, cs)

/-- An exponent, if its mark follows. -/
def scanExponent (cs : List Char) : Option (Option (Bool × List Char) × List Char) :=
  match cs with
  | [] => some (none, [])
  | c :: rest =>
    if c == 'e' || c == 'E' then
      let sign := scanSign rest
      match digits sign.2 with
      | ([], _) => none
      | (found, rest') => some (some (sign.1, found), rest')
    else some (none, cs)

/-- The literal at the start of the characters, and what follows it. -/
def scan (cs : List Char) : Option (NumberLiteral × List Char) :=
  let negative := cs.head? == some '-'
  match scanWhole (if negative then cs.drop 1 else cs) with
  | none => none
  | some (whole, rest) =>
    match scanFraction rest with
    | none => none
    | some (fraction, rest') =>
      match scanExponent rest' with
      | none => none
      | some (exponent, rest'') => some (⟨negative, whole, fraction, exponent⟩, rest'')

/-- The characters end before the literal at their start does, or with it : with more of them it
could go on. -/
def isCut (cs : List Char) : Bool :=
  let body := if cs.head? == some '-' then cs.drop 1 else cs
  match scanWhole body with
  | none => body.isEmpty
  | some (_, rest) =>
    match scanFraction rest with
    | none => (rest.drop 1).isEmpty
    | some (_, rest') =>
      match scanExponent rest' with
      | none => (scanSign (rest'.drop 1)).2.isEmpty
      | some (_, rest'') => rest''.isEmpty

/-- The literal that a whole text is. -/
def ofText? (s : String) : Option NumberLiteral :=
  match scan s.toList with
  | some (literal, []) => some literal
  | _ => none

/-- The literal has neither a fraction nor an exponent. -/
def isInteger (l : NumberLiteral) : Bool :=
  l.fraction.isNone && l.exponent.isNone

/-- Value of digits in base ten. -/
def digitsValue (cs : List Char) : Nat :=
  cs.foldl (fun n c => 10 * n + (c.toNat - '0'.toNat)) 0

/-- Value of the whole part with its sign. -/
def toInt (l : NumberLiteral) : Int :=
  if l.negative then -(digitsValue l.whole : Int) else digitsValue l.whole

/-- Value of the written exponent; none counts as zero. -/
def exponentValue (l : NumberLiteral) : Int :=
  match l.exponent with
  | none => 0
  | some (negative, ds) => if negative then -(digitsValue ds : Int) else digitsValue ds

/-- The literal as a decimal, every written digit kept. -/
def toDecimal (l : NumberLiteral) : Decimal :=
  let fraction := l.fraction.getD []
  ⟨l.negative, digitsValue (l.whole ++ fraction), l.exponentValue - fraction.length⟩

end NumberLiteral

end JsonShape
