import JsonShape.Json.Grammar
import JsonShape.Number.Literal
import JsonShape.Text.CharClass
import JsonShape.Text.Utf8
import JsonShape.Value.Basic

/-!
# Document streams

A stream is any number of JSON documents in bytes, with blanks or nothing between them : `012` is
the documents 0 and 12. Whole numbers stay whole, every other number is kept as the decimal that
was written, and of two entries with one key the later value counts.

Bytes are handled as characters below 256 until a string is complete. A string's bytes must have
the form of UTF-8 for the grammar; that they encode characters is tested when the string is read.
A code for the first half of a pair joins with the code after it, whichever it is, and stands for
a question mark where none follows.

Of input that breaks off, the part before the break can be read on its own. What that part ends in
is then neither complete nor a fault : a number is complete only if something stands behind it.
-/

namespace JsonShape.Document

open Json (hexCode? escaped? isHighHalf)

/-- Why bytes are no stream of documents. -/
inductive StreamFault where
  /-- The bytes break the grammar. -/
  | malformed
  /-- The bytes end inside a document. -/
  | truncated
  /-- A string's bytes encode no characters. -/
  | invalidUtf8 (reason : Utf8.Fault)
  /-- A number's exponent is beyond the bounds of a decimal. -/
  | exponentOutOfRange
deriving DecidableEq, Repr, Inhabited

/-! ## Strings -/

/-- A piece of a string : a byte that stands for itself, or the code of an escape. -/
inductive Piece where
  | byte (b : UInt8)
  | code (n : Nat)
deriving DecidableEq, Repr, Inhabited

/-- How many bytes must follow the first byte of a character, by its form. -/
def bytesOwed (b : UInt8) : Option Nat :=
  if b < 0x80 then some 0
  else if b >>> 5 == 0x06 then some 1
  else if b >>> 4 == 0x0E then some 2
  else if b >>> 3 == 0x1E then some 3
  else none

/-- The pieces of a string up to its closing quote, after those in `done`, which are in reverse, and
what follows the quote. The next `owed` bytes must go on with a character. -/
def readPieces (owed : Nat) (done : List Piece) :
    List Char → Except StreamFault (List Piece × List Char)
  | [] => .error .truncated
  | c :: rest =>
    let b := c.toNat.toUInt8
    match owed with
    | owed + 1 =>
      if b >>> 6 == 0x02 then readPieces owed (.byte b :: done) rest else .error .malformed
    | 0 =>
      if c = '"' then .ok (done.reverse, rest)
      else if c = '\\' then
        match rest with
        | [] => .error .truncated
        | e :: inner =>
          if e = 'u' then
            match inner with
            | h₁ :: h₂ :: h₃ :: h₄ :: rest' =>
              match hexCode? [h₁, h₂, h₃, h₄] with
              | none => .error .malformed
              | some n => readPieces 0 (.code n :: done) rest'
            | digits =>
              .error (if digits.all fun h => (Json.hexValue? h).isSome then .truncated
                else .malformed)
          else
            match escaped? e with
            | none => .error .malformed
            | some x => readPieces 0 (.byte x.toNat.toUInt8 :: done) inner
      else if c.toNat < 0x20 then .error .malformed
      else
        match bytesOwed b with
        | none => .error .malformed
        | some owed => readPieces owed (.byte b :: done) rest

/-- The code that the first half of a pair makes with the code after it. -/
def joinedCode (high low : Nat) : Nat :=
  (high % 0x40) * 0x400 + (high / 0x40 % 0x10 + 1) * 0x10000 + low % 0x400

/-- The bytes of the pieces, after those in `done`, which are in reverse. -/
def pieceBytes (done : List UInt8) : List Piece → List UInt8
  | [] => done.reverse
  | .byte b :: rest => pieceBytes (b :: done) rest
  | [.code n] =>
    if isHighHalf n then ('?'.toNat.toUInt8 :: done).reverse
    else ((Utf8.encodeCode n).reverse ++ done).reverse
  | .code n :: .code m :: rest =>
    if isHighHalf n then pieceBytes ((Utf8.encodeCode (joinedCode n m)).reverse ++ done) rest
    else pieceBytes ((Utf8.encodeCode n).reverse ++ done) (.code m :: rest)
  | .code n :: .byte b :: rest =>
    if isHighHalf n then pieceBytes ('?'.toNat.toUInt8 :: done) (.byte b :: rest)
    else pieceBytes ((Utf8.encodeCode n).reverse ++ done) (.byte b :: rest)

/-- The string whose opening quote is passed already. -/
def readText (cs : List Char) : Except StreamFault (String × List Char) :=
  match readPieces 0 [] cs with
  | .error fault => .error fault
  | .ok (pieces, rest) =>
    match Utf8.decode (pieceBytes [] pieces) with
    | .error reason => .error (.invalidUtf8 reason)
    | .ok s => .ok (s, rest)

/-! ## Numbers and words -/

/-- The value of a number literal. -/
def ofLiteral (l : NumberLiteral) : Except StreamFault Value :=
  if l.isInteger then .ok (.int l.toInt)
  else if l.toDecimal.inRange then .ok (.decimal l.toDecimal)
  else .error .exponentOutOfRange

/-- The words that stand for a value. -/
def words : List (String × Value) :=
  [("null", .null), ("true", .bool true), ("false", .bool false)]

/-- The characters end before the string, word or number at their start does. A number may go on
where the characters end. -/
def isCut : List Char → Bool
  | '"' :: rest => (readPieces 0 [] rest matches .error .truncated)
  | cs => NumberLiteral.isCut cs || words.any fun w => cs.isPrefixOf w.1.toList && cs != w.1.toList

/-- The value of the word or number at the start. If the characters are not `whole`, a number at
their end may go on. -/
def readAtom (whole : Bool) (cs : List Char) : Except StreamFault (Value × List Char) :=
  match Json.Dialect.readWord words cs with
  | some found => .ok found
  | none =>
    match NumberLiteral.scan cs with
    | none => .error (if isCut cs then .truncated else .malformed)
    | some (l, rest) =>
      if rest.isEmpty && !whole then .error .truncated
      else
        match ofLiteral l with
        | .error fault => .error fault
        | .ok v => .ok (v, rest)

/-- How documents are read, from `whole` input or from the first part of it. -/
def dialect (whole : Bool) : Json.Dialect StreamFault Value where
  isBlank := Text.isJsonBlank
  text := readText
  atom := readAtom whole
  isCut := isCut
  ofText := .text
  ofItems := .list
  ofEntries := fun entries => Value.ofEntries (entries.map fun e => (.text e.1, e.2))
  malformed := .malformed
  truncated := .truncated

/-- The characters below 256 that bytes are. -/
def byteChars (bytes : List UInt8) : List Char :=
  bytes.map fun b => Char.ofNat b.toNat

/-- The documents of a stream of bytes, which are `whole` or the first part of it. -/
def readDocuments (whole : Bool) (bytes : List UInt8) : Except StreamFault (List Value) :=
  (dialect whole).stream (byteChars bytes)

end JsonShape.Document
