import JsonShape.Number.Binary64
import JsonShape.Number.Literal

/-!
# Numbers in texts

Outside JSON a number may be written more freely : with a plus, with no digit before the point or
none after it, and with words for infinity and for no number.
-/

namespace JsonShape

open NumberLiteral (digits digitsValue scanSign)

/-- The decimal at the start of unsigned characters, if they are nothing else. -/
def readUnsignedDecimal? (negative : Bool) (cs : List Char) : Option Decimal :=
  let (whole, rest) := digits cs
  let (fraction, rest) :=
    match rest with
    | '.' :: more => digits more
    | _ => ([], rest)
  if whole.isEmpty && fraction.isEmpty then none
  else
    let coefficient := digitsValue (whole ++ fraction)
    match rest with
    | [] => some ⟨negative, coefficient, -(fraction.length : Int)⟩
    | c :: more =>
      if c == 'e' || c == 'E' then
        let (down, text) := scanSign more
        let (found, after) := digits text
        if found.isEmpty || !after.isEmpty then none
        else
          let e : Int := if down then -(digitsValue found : Int) else digitsValue found
          some ⟨negative, coefficient, e - fraction.length⟩
      else none

/-- The decimal that a text is. -/
def Decimal.ofText? (s : String) : Option Decimal :=
  let (negative, rest) := scanSign s.toList
  readUnsignedDecimal? negative rest

/-- The floating-point number that a text is. -/
def Binary64.ofText? (s : String) : Option Binary64 :=
  let (negative, rest) := scanSign s.toList
  let word := String.ofList (rest.map Char.toLower)
  if word == "inf" || word == "infinity" then some (.infinite negative)
  else if word == "nan" then some .notANumber
  else (readUnsignedDecimal? negative rest).map Binary64.ofDecimal

end JsonShape
