/-!
# Base 64

`Base64.decode?` reads bytes written in base 64. Characters outside the alphabet are passed over,
and what follows the padding that completes a group is not read.
-/

namespace JsonShape.Yaml.Base64

/-- The digit that a character stands for. -/
def digit? (c : Char) : Option Nat :=
  if c.isUpper then some (c.toNat - 'A'.toNat)
  else if c.isLower then some (c.toNat - 'a'.toNat + 26)
  else if c.isDigit then some (c.toNat - '0'.toNat + 52)
  else if c == '+' then some 62
  else if c == '/' then some 63
  else none

/-- The digits up to the end or the padding that completes a group, and whether they end there as
they must. -/
def groups : List Char → List Nat → Nat → List Nat × Bool
  | [], found, _ => (found, found.length % 4 == 0)
  | c :: rest, found, pads =>
    if c == '=' then
      if 2 ≤ found.length % 4 && 4 ≤ found.length % 4 + (pads + 1) then (found, true)
      else groups rest found (if 2 ≤ found.length % 4 then pads + 1 else pads)
    else
      match digit? c with
      | some d => groups rest (found ++ [d]) 0
      | none => groups rest found pads

/-- The bytes of digits : three for four digits, fewer for the last ones. -/
def bytes : List Nat → List UInt8
  | a :: b :: c :: d :: rest =>
    (a * 4 + b / 16).toUInt8 :: (b % 16 * 16 + c / 4).toUInt8 :: (c % 4 * 64 + d).toUInt8 ::
      bytes rest
  | [a, b, c] => [(a * 4 + b / 16).toUInt8, (b % 16 * 16 + c / 4).toUInt8]
  | [a, b] => [(a * 4 + b / 16).toUInt8]
  | _ => []

/-- The bytes that a text is, if its groups are complete. -/
def decode? (cs : List Char) : Option (List UInt8) :=
  match groups cs [] 0 with
  | (digits, true) => some (bytes digits)
  | (_, false) => none

end JsonShape.Yaml.Base64
