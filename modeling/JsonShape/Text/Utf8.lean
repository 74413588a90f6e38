/-!
# UTF-8

`Utf8.decode` reads bytes as UTF-8 and refuses overlong forms, surrogates and codes beyond the
last one. A refusal says whether a byte cannot start a character, cannot go on with one, or is
missing. `Utf8.encodeCode` writes one code, surrogates included.
-/

namespace JsonShape.Utf8

/-- Why bytes are no UTF-8. -/
inductive Fault where
  | invalidStart
  | invalidContinuation
  | unexpectedEnd
deriving DecidableEq, Repr, Inhabited

/-- The fault in words. -/
def Fault.message : Fault → String
  | .invalidStart => "invalid start byte"
  | .invalidContinuation => "invalid continuation byte"
  | .unexpectedEnd => "unexpected end of data"

/-- The bytes of a code below `0x110000`. -/
def encodeCode (n : Nat) : List UInt8 :=
  if n < 0x80 then [n.toUInt8]
  else if n < 0x800 then [(0xC0 + n / 0x40).toUInt8, (0x80 + n % 0x40).toUInt8]
  else if n < 0x10000 then
    [(0xE0 + n / 0x1000).toUInt8, (0x80 + n / 0x40 % 0x40).toUInt8, (0x80 + n % 0x40).toUInt8]
  else
    [(0xF0 + n / 0x40000).toUInt8, (0x80 + n / 0x1000 % 0x40).toUInt8,
      (0x80 + n / 0x40 % 0x40).toUInt8, (0x80 + n % 0x40).toUInt8]

/-- The bytes of a text. -/
def encode (s : String) : List UInt8 :=
  s.toList.flatMap fun c => encodeCode c.toNat

/-- The byte goes on with a character. -/
def isTail (b : UInt8) : Bool :=
  0x80 ≤ b && b ≤ 0xBF

/-- The second byte may follow the first byte of a character of three or four bytes. -/
def isSecond (first second : UInt8) : Bool :=
  isTail second &&
    (if first == 0xE0 then 0xA0 ≤ second
    else if first == 0xED then second ≤ 0x9F
    else if first == 0xF0 then 0x90 ≤ second
    else if first == 0xF4 then second ≤ 0x8F
    else true)

/-- Number of a byte without its highest bits. -/
def payload (mask : Nat) (b : UInt8) : Nat :=
  b.toNat % mask

/-- Decodes the bytes after the characters `done`, which are in reverse. -/
def decodeAfter (done : List Char) : List UInt8 → Except Fault (List Char)
  | [] => .ok done.reverse
  | a :: rest =>
    if a < 0x80 then decodeAfter (Char.ofNat a.toNat :: done) rest
    else if a < 0xC2 then .error .invalidStart
    else if a < 0xE0 then
      match rest with
      | [] => .error .unexpectedEnd
      | b :: rest =>
        if isTail b then
          decodeAfter (Char.ofNat (payload 0x20 a * 0x40 + payload 0x40 b) :: done) rest
        else .error .invalidContinuation
    else if a < 0xF0 then
      match rest with
      | [] => .error .unexpectedEnd
      | [b] => .error (if isSecond a b then .unexpectedEnd else .invalidContinuation)
      | b :: c :: rest =>
        if isSecond a b && isTail c then
          decodeAfter
            (Char.ofNat (payload 0x10 a * 0x1000 + payload 0x40 b * 0x40 + payload 0x40 c) :: done)
            rest
        else .error .invalidContinuation
    else if a < 0xF5 then
      match rest with
      | [] => .error .unexpectedEnd
      | [b] => .error (if isSecond a b then .unexpectedEnd else .invalidContinuation)
      | [b, c] =>
        .error (if isSecond a b && isTail c then .unexpectedEnd else .invalidContinuation)
      | b :: c :: d :: rest =>
        if isSecond a b && isTail c && isTail d then
          decodeAfter
            (Char.ofNat (payload 0x08 a * 0x40000 + payload 0x40 b * 0x1000 +
              payload 0x40 c * 0x40 + payload 0x40 d) :: done)
            rest
        else .error .invalidContinuation
    else .error .invalidStart

/-- The text that bytes encode. -/
def decode (bytes : List UInt8) : Except Fault String :=
  (decodeAfter [] bytes).map String.ofList

end JsonShape.Utf8
