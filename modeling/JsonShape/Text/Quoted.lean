import JsonShape.Text.Printable

/-!
# Quoted text

Messages show a text in quotes, so that an empty or blank text stays visible. `quote` takes the
apostrophe as its mark, or the double quote where the text holds an apostrophe and no double
quote. The mark and the backslash get a backslash, tab, line feed and carriage return have their
letters, and every character that is not printable is shown by its code. `quoteBytes` does the
same for bytes, where only ASCII counts as printable.
-/

namespace JsonShape.Text

/-- Digits of `n` in base sixteen, in lower case, with zeros in front up to `width`. -/
def hexDigits (width n : Nat) : List Char :=
  let digits := Nat.toDigits 16 n
  List.replicate (width - digits.length) '0' ++ digits

/-- Digits of `n` in base sixteen, in upper case, with zeros in front up to `width`. -/
def upperHexDigits (width n : Nat) : List Char :=
  (hexDigits width n).map Char.toUpper

/-- A character shown by its code, in the shortest of the three widths. -/
def showCode (n : Nat) : List Char :=
  if n ≤ 0xFF then '\\' :: 'x' :: hexDigits 2 n
  else if n ≤ 0xFFFF then '\\' :: 'u' :: hexDigits 4 n
  else '\\' :: 'U' :: hexDigits 8 n

/-- One character of a quoted text whose mark is `mark`. -/
def quoteChar (mark c : Char) : List Char :=
  if c == mark || c == '\\' then ['\\', c]
  else if c == '\t' then ['\\', 't']
  else if c == '\n' then ['\\', 'n']
  else if c == '\r' then ['\\', 'r']
  else if isPrintable c then [c]
  else showCode c.toNat

/-- The mark that encloses a quoted text. -/
def quoteMark (cs : List Char) : Char :=
  if cs.contains '\'' && !cs.contains '"' then '"' else '\''

/-- The text in quotes. -/
def quote (s : String) : String :=
  let mark := quoteMark s.toList
  String.ofList (mark :: s.toList.flatMap (quoteChar mark) ++ [mark])

/-- One byte of quoted bytes whose mark is `mark`. -/
def quoteByte (mark : Char) (b : UInt8) : List Char :=
  if b.toNat < 0x7F then quoteChar mark (Char.ofNat b.toNat) else showCode b.toNat

/-- The bytes in quotes, after the letter that tells them from a text. -/
def quoteBytes (bs : List UInt8) : String :=
  let mark := quoteMark (bs.map fun b => Char.ofNat b.toNat)
  String.ofList ('b' :: mark :: bs.flatMap (quoteByte mark) ++ [mark])

end JsonShape.Text
