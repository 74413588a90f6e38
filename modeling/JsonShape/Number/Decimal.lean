/-!
# Decimals

A decimal keeps sign, coefficient and exponent as they were written, so `0.050` and `0.05` are
different decimals of one value. `Decimal.inRange` bounds the exponent, and `Decimal.text` is the
written form : positional while the exponent is not positive and at most six zeros follow the
point, with an exponent otherwise.
-/

namespace JsonShape

/-- The number `(-1)^negative * coefficient * 10^exponent`. -/
structure Decimal where
  negative : Bool
  coefficient : Nat
  exponent : Int
deriving DecidableEq, Repr, Inhabited

namespace Decimal

/-- Number of digits of the coefficient; zero has one. -/
def digitCount (d : Decimal) : Nat :=
  (toString d.coefficient).length

/-- Exponent of the first digit. -/
def adjusted (d : Decimal) : Int :=
  d.exponent + (d.digitCount - 1 : Nat)

/-- Largest exponent of a first digit. -/
def maxAdjusted : Int := 999999999999999999

/-- Smallest exponent. -/
def minExponent : Int := -1999999999999999997

/-- The exponent lies within the bounds of a decimal. -/
def inRange (d : Decimal) : Bool :=
  minExponent ≤ d.exponent && d.adjusted ≤ maxAdjusted

/-- Digits with a point before the last `places` of them. -/
def placePoint (digits : List Char) (places : Nat) : List Char :=
  if places == 0 then digits
  else
    let padded := List.replicate (places + 1 - digits.length) '0' ++ digits
    padded.take (padded.length - places) ++ '.' :: padded.drop (padded.length - places)

/-- A point after the first digit, unless it is the only one. -/
def pointAfterFirst : List Char → List Char
  | first :: second :: rest => first :: '.' :: second :: rest
  | digits => digits

/-- Sign and digits of an exponent. -/
def exponentText (e : Int) : List Char :=
  (if e < 0 then '-' else '+') :: (toString e.natAbs).toList

/-- The written form of a decimal. -/
def text (d : Decimal) : String :=
  let digits := (toString d.coefficient).toList
  let body :=
    if d.exponent ≤ 0 && -6 ≤ d.adjusted then placePoint digits d.exponent.natAbs
    else
      pointAfterFirst digits ++
        (if d.adjusted == 0 then [] else 'E' :: exponentText d.adjusted)
  String.ofList (if d.negative then '-' :: body else body)

/-- The coefficient with as many trailing zeros as fuel allows moved into the exponent. -/
def stripZeros : Nat → Nat → Int → Nat × Int
  | 0, n, e => (n, e)
  | fuel + 1, n, e => if n ≠ 0 ∧ n % 10 = 0 then stripZeros fuel (n / 10) (e + 1) else (n, e)

/-- The same value with no trailing zero in its coefficient, and one form of zero. -/
def normal (d : Decimal) : Decimal :=
  if d.coefficient == 0 then ⟨false, 0, 0⟩
  else
    let r := stripZeros d.digitCount d.coefficient d.exponent
    ⟨d.negative, r.1, r.2⟩

end Decimal

end JsonShape
