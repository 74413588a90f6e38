import JsonShape.Number.Decimal

/-!
# Binary floating point

A 64-bit floating-point number is a sign with a mantissa times a power of two, an infinity or no
number. `Binary64.ofDecimal` rounds a decimal to the nearest one, halves to the even mantissa.
`Binary64.text` writes the fewest digits that read back as the number : positional from `10^-4` to
below `10^16`, with an exponent of at least two digits otherwise. All arithmetic is exact.
-/

namespace JsonShape

/-- A 64-bit floating-point number; the finite ones are `mantissa * 2^exponent` with a sign. -/
inductive Binary64 where
  | notANumber
  | infinite (negative : Bool)
  | finite (negative : Bool) (mantissa : Nat) (exponent : Int)
deriving DecidableEq, Repr, Inhabited

namespace Binary64

/-- The quotient rounded to the nearest whole number, halves to the even one. -/
def roundedQuotient (num den : Nat) : Nat :=
  let q := num / den
  let r := num % den
  if 2 * r > den || (2 * r == den && q % 2 == 1) then q + 1 else q

/-- Numerator and denominator of `n * 2^e`. -/
def scaled (n : Nat) (e : Int) : Nat × Nat :=
  if 0 ≤ e then (n * Nat.pow 2 e.toNat, 1) else (n, Nat.pow 2 (-e).toNat)

/-- The number nearest to the positive fraction `num / den`. -/
def ofFraction (negative : Bool) (num den : Nat) : Binary64 :=
  let estimate : Int := (Nat.log2 num : Int) - Nat.log2 den - 52
  let fits (e : Int) : Bool :=
    if 0 ≤ e then num < den * Nat.pow 2 (e.toNat + 53)
    else num * Nat.pow 2 (-e).toNat < den * Nat.pow 2 53
  let exponent := max (-1074) (if fits (estimate - 1) then estimate - 1
    else if fits estimate then estimate else estimate + 1)
  let mantissa :=
    if 0 ≤ exponent then roundedQuotient num (den * Nat.pow 2 exponent.toNat)
    else roundedQuotient (num * Nat.pow 2 (-exponent).toNat) den
  if mantissa == Nat.pow 2 53 then
    if exponent + 1 > 971 then .infinite negative
    else .finite negative (Nat.pow 2 52) (exponent + 1)
  else if exponent > 971 then .infinite negative
  else .finite negative mantissa exponent

/-- The number nearest to a decimal. A first digit beyond `10^310` is infinite and one below
`10^-330` is zero, so no power of ten out of reach is computed. -/
def ofDecimal (d : Decimal) : Binary64 :=
  if d.coefficient == 0 then .finite d.negative 0 (-1074)
  else if d.adjusted > 310 then .infinite d.negative
  else if d.adjusted < -330 then .finite d.negative 0 (-1074)
  else if 0 ≤ d.exponent then ofFraction d.negative (d.coefficient * Nat.pow 10 d.exponent.toNat) 1
  else ofFraction d.negative d.coefficient (Nat.pow 10 (-d.exponent).toNat)

/-- Exact decimal value of a finite number. -/
def toDecimal? : Binary64 → Option Decimal
  | .finite negative mantissa exponent =>
    if 0 ≤ exponent then some ⟨negative, mantissa * Nat.pow 2 exponent.toNat, 0⟩
    else some ⟨negative, mantissa * Nat.pow 5 (-exponent).toNat, exponent⟩
  | _ => none

/-! ## Shortest digits -/

/-- Where the decimals lie that read back as one positive number : four times the number and both
ends of its interval, over one denominator. -/
structure Interval where
  low : Nat
  value : Nat
  high : Nat
  denominator : Nat
  closed : Bool

/-- The interval of the decimals that round to `mantissa * 2^exponent`. -/
def interval (mantissa : Nat) (exponent : Int) : Interval :=
  let below := if mantissa == Nat.pow 2 52 && exponent > -1074 then 1 else 2
  let s := scaled 1 exponent
  { low := (4 * mantissa - below) * s.1
    value := 4 * mantissa * s.1
    high := (4 * mantissa + 2) * s.1
    denominator := 4 * s.2
    closed := mantissa % 2 == 0 }

/-- The decimal `d * 10^e` lies in the interval. -/
def Interval.holds (i : Interval) (d : Nat) (e : Int) : Bool :=
  let l := if 0 ≤ e then i.low else i.low * Nat.pow 10 (-e).toNat
  let h := if 0 ≤ e then i.high else i.high * Nat.pow 10 (-e).toNat
  let x := if 0 ≤ e then d * Nat.pow 10 e.toNat * i.denominator else d * i.denominator
  if i.closed then l ≤ x && x ≤ h else l < x && x < h

/-- The whole part of the value over `10^e`, and whether the value is nearer to the next one. -/
def Interval.floorAt (i : Interval) (e : Int) : Nat × Bool :=
  let num := if 0 ≤ e then i.value else i.value * Nat.pow 10 (-e).toNat
  let den := if 0 ≤ e then i.denominator * Nat.pow 10 e.toNat else i.denominator
  let r := num % den
  let q := num / den
  (q, 2 * r > den || (2 * r == den && q % 2 == 1))

/-- The value is at least `10^e`. -/
def Interval.atLeast (i : Interval) (e : Int) : Bool :=
  if 0 ≤ e then Nat.pow 10 e.toNat * i.denominator ≤ i.value
  else i.denominator ≤ i.value * Nat.pow 10 (-e).toNat

/-- The exponent of the first digit of the value, searched downward from `e`. -/
def Interval.firstDigit (i : Interval) : Nat → Int → Int
  | 0, e => e
  | fuel + 1, e => if i.atLeast e then e else i.firstDigit fuel (e - 1)

/-- Of the two neighbours with last place `10^e`, the one in the interval that is nearer. -/
def Interval.candidate (i : Interval) (e : Int) : Option Nat :=
  let q := i.floorAt e
  let lowIn := i.holds q.1 e
  let highIn := i.holds (q.1 + 1) e
  if lowIn && highIn then some (if q.2 then q.1 + 1 else q.1)
  else if lowIn then some q.1
  else if highIn then some (q.1 + 1)
  else none

/-- Tries `count` digits, then one more, until a decimal lies in the interval. -/
def Interval.shortest (i : Interval) (first : Int) : Nat → Nat → Nat × Int
  | 0, count =>
    let e := first - count
    ((i.floorAt e).1, e)
  | fuel + 1, count =>
    let e := first - count
    match i.candidate e with
    | some d => (d, e)
    | none => i.shortest first fuel (count + 1)

/-- Fewest digits that read back as the positive number, with the exponent of the last one. -/
def shortestDigits (mantissa : Nat) (exponent : Int) : Nat × Int :=
  let i := interval mantissa exponent
  let r := i.shortest (i.firstDigit 640 310) 17 0
  Decimal.stripZeros 20 r.1 r.2

/-- Digits of an exponent, at least two of them. -/
def twoDigits (n : Nat) : List Char :=
  let digits := (toString n).toList
  if digits.length < 2 then '0' :: digits else digits

/-- The written form of a floating-point number. -/
def text : Binary64 → String
  | .notANumber => "nan"
  | .infinite negative => if negative then "-inf" else "inf"
  | .finite negative mantissa exponent =>
    let body : List Char :=
      if mantissa == 0 then ['0', '.', '0']
      else
        let r := shortestDigits mantissa exponent
        let digits := (toString r.1).toList
        let first : Int := r.2 + (digits.length - 1 : Nat)
        if first < -4 || 16 ≤ first then
          Decimal.pointAfterFirst digits ++ 'e' ::
            (if first < 0 then '-' else '+') :: twoDigits first.natAbs
        else if 0 ≤ r.2 then digits ++ List.replicate r.2.toNat '0' ++ ['.', '0']
        else Decimal.placePoint digits r.2.natAbs
    String.ofList (if negative then '-' :: body else body)

end Binary64

end JsonShape
