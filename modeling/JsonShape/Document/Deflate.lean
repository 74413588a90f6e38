/-!
# Deflated data

`inflate` expands a deflate stream : blocks of stored bytes, or of literals and copies in a prefix
code that is fixed or given in the block. It stops at the end of the last block, at the first bit
that no stream could hold, or where the bits run out; in every case the bytes expanded so far are
kept.

A stream may be fed in parts, and its expansion taken in parts. How far each byte of the expansion
depends on the stream is kept along with it (`Emission`).
-/

namespace JsonShape.Deflate

/-- What no stream can hold. -/
inductive Corruption where
  | blockForm
  | storedLength
  | symbolCount
  | lengthCode
  | lengthRepeat
  | noEndSymbol
  | literalCode
  | distanceCode
  | literalSymbol
  | distanceSymbol
  /-- A copy from before the first byte. -/
  | farDistance
deriving DecidableEq, Repr, Inhabited

/-- The corruption in words. -/
def Corruption.message : Corruption → String
  | .blockForm => "invalid block type"
  | .storedLength => "invalid stored block lengths"
  | .symbolCount => "too many length or distance symbols"
  | .lengthCode => "invalid code lengths set"
  | .lengthRepeat => "invalid bit length repeat"
  | .noEndSymbol => "invalid code -- missing end-of-block"
  | .literalCode => "invalid literal/lengths set"
  | .distanceCode => "invalid distances set"
  | .literalSymbol => "invalid literal/length code"
  | .distanceSymbol => "invalid distance code"
  | .farDistance => "invalid distance too far back"

/-- Why a stream has no end. -/
inductive Stop where
  /-- The bits run out. -/
  | truncated
  /-- No stream goes on like this. -/
  | corrupt (cause : Corruption)
deriving DecidableEq, Repr, Inhabited

/-- A byte of the expansion, with what is left of the stream when it is expanded. -/
structure Emission where
  byte : UInt8
  /-- Number of whole bytes of the stream behind those that the byte is expanded from. -/
  left : Nat
  /-- Number of bytes of the stream that are not taken in while the byte waits for room. -/
  waiting : Nat
deriving DecidableEq, Repr, Inhabited

/-- The bits to come, first one first, with their number, and the bytes expanded so far. -/
structure Progress where
  bits : List Bool
  count : Nat
  counted : count = bits.length
  emitted : Array Emission

/-- Work on a stream. -/
abbrev Expand := ExceptT Stop (StateM Progress)

/-- The bits of a byte, lowest first. -/
def byteBits (b : UInt8) : List Bool :=
  (List.range 8).map fun i => b.toNat.testBit i

/-- Skips bits. -/
def Progress.drop (n : Nat) (p : Progress) : Progress :=
  { p with bits := p.bits.drop n, count := p.count - n, counted := by simp [p.counted] }

/-- Number of whole bytes to come. -/
def Progress.left (p : Progress) : Nat :=
  p.count / 8

/-- The next bit. -/
def bit : Expand Nat := do
  match (← get).bits with
  | [] => throw .truncated
  | b :: _ =>
    modify (Progress.drop 1)
    pure b.toNat

/-- A number of `n` bits, lowest first. -/
def number : Nat → Expand Nat
  | 0 => pure 0
  | n + 1 => do
    let low ← bit
    let high ← number n
    pure (low + 2 * high)

/-- Adds a byte to the expansion, for which `waiting` bytes are not taken in until there is room. -/
def emit (waiting : Nat) (b : UInt8) : Expand Unit :=
  modify fun p => { p with emitted := p.emitted.push ⟨b, p.left, waiting⟩ }

/-! ## Prefix codes -/

/-- A canonical prefix code : how many symbols have each length from one on, and the symbols by
length. -/
structure Code where
  counts : List Nat
  symbols : Array Nat

/-- Longest code word. -/
def maxLength : Nat := 15

/-- The symbols whose code words have the given length. -/
def symbolsOfLength (lengths : List Nat) (n : Nat) : List Nat :=
  (lengths.zipIdx.filter fun p => p.1 == n).map Prod.snd

/-- The canonical code in which the symbols have the given lengths, zero for none. -/
def Code.ofLengths (lengths : List Nat) : Code :=
  let longest := max 1 (lengths.foldl max 0)
  let groups := (List.range longest).map fun i => symbolsOfLength lengths (i + 1)
  ⟨groups.map List.length, groups.flatten.toArray⟩

/-- The code has no symbols. -/
def Code.isEmpty (c : Code) : Bool :=
  c.symbols.isEmpty

/-- Code words left over after those of each length, or none if there are too many of them. -/
def leftOver : Nat → List Nat → Option Nat
  | left, [] => some left
  | left, count :: rest => if 2 * left < count then none else leftOver (2 * left - count) rest

/-- The lengths make a code : not too many words, and none left over, except that a code may be
empty or, where `loose`, have a single word of one bit. -/
def isCode (loose : Bool) (lengths : List Nat) : Bool :=
  let c := Code.ofLengths lengths
  c.isEmpty ||
    match leftOver 1 c.counts with
    | none => false
    | some 0 => true
    | some _ => loose && c.counts.length == 1

/-- The next symbol, where `word` is the code word so far, `first` the first word of its length
and `index` the place of that word's symbol. A word that is none in the code is corruption. -/
def symbolFrom (cause : Corruption) (symbols : Array Nat) :
    List Nat → Nat → Nat → Nat → Expand Nat
  | [], _, _, _ => throw (.corrupt cause)
  | count :: rest, word, first, index => do
    let b ← bit
    let word := word + b
    if word < first + count then pure (symbols.getD (index + (word - first)) 0)
    else symbolFrom cause symbols rest (2 * word) (2 * (first + count)) (index + count)

/-- The next symbol of a code. -/
def Code.symbol (c : Code) (cause : Corruption) : Expand Nat :=
  symbolFrom cause c.symbols c.counts 0 0 0

/-! ## Copies -/

/-- Least length and extra bits of each length symbol from 257 on. -/
def lengthForms : Array (Nat × Nat) := #[
  (3, 0), (4, 0), (5, 0), (6, 0), (7, 0), (8, 0), (9, 0), (10, 0), (11, 1), (13, 1), (15, 1),
  (17, 1), (19, 2), (23, 2), (27, 2), (31, 2), (35, 3), (43, 3), (51, 3), (59, 3), (67, 4),
  (83, 4), (99, 4), (115, 4), (131, 5), (163, 5), (195, 5), (227, 5), (258, 0)]

/-- Least distance and extra bits of each distance symbol. -/
def distanceForms : Array (Nat × Nat) := #[
  (1, 0), (2, 0), (3, 0), (4, 0), (5, 1), (7, 1), (9, 2), (13, 2), (17, 3), (25, 3), (33, 4),
  (49, 4), (65, 5), (97, 5), (129, 6), (193, 6), (257, 7), (385, 7), (513, 8), (769, 8),
  (1025, 9), (1537, 9), (2049, 10), (3073, 10), (4097, 11), (6145, 11), (8193, 12), (12289, 12),
  (16385, 13), (24577, 13)]

/-- The value of a symbol with a least value and extra bits. -/
def formValue (cause : Corruption) (forms : Array (Nat × Nat)) (symbol : Nat) : Expand Nat :=
  match forms[symbol]? with
  | none => throw (.corrupt cause)
  | some (least, extra) => do
    let more ← number extra
    pure (least + more)

/-- Copies bytes from a distance back, one after the other. -/
def copy (distance : Nat) : Nat → Expand Unit
  | 0 => pure ()
  | n + 1 => do
    let p ← get
    emit p.left (p.emitted.getD (p.emitted.size - distance) default).byte
    copy distance n

/-! ## Blocks -/

/-- The symbol that ends a block. -/
def endSymbol : Nat := 256

/-- Literals and copies up to the end of a block. Every symbol takes a bit, so as much fuel as
there are bits is enough. -/
def codedBytes (literals distances : Code) : Nat → Expand Unit
  | 0 => throw .truncated
  | fuel + 1 => do
    let symbol ← literals.symbol .literalSymbol
    if symbol < endSymbol then
      emit (← get).left symbol.toUInt8
      codedBytes literals distances fuel
    else if symbol == endSymbol then pure ()
    else
      let length ← formValue .literalSymbol lengthForms (symbol - 257)
      let distanceSymbol ← distances.symbol .distanceSymbol
      let distance ← formValue .distanceSymbol distanceForms distanceSymbol
      if distance > (← get).emitted.size then throw (.corrupt .farDistance)
      copy distance length
      codedBytes literals distances fuel

/-- Bytes that stand as they are. One that waits for room is not taken in. -/
def rawBytes : Nat → Expand Unit
  | 0 => pure ()
  | n + 1 => do
    let waiting := (← get).left
    let b ← number 8
    emit waiting b.toUInt8
    rawBytes n

/-- A stored block : the rest of the current byte is skipped, then come length and bytes. -/
def storedBlock : Expand Unit := do
  modify fun p => p.drop (p.count % 8)
  let length ← number 16
  let check ← number 16
  if length + check != 0xFFFF then throw (.corrupt .storedLength)
  rawBytes length

/-- Lengths of the fixed code of literals. -/
def fixedLiteralLengths : List Nat :=
  List.replicate 144 8 ++ List.replicate 112 9 ++ List.replicate 24 7 ++ List.replicate 8 8

/-- Lengths of the fixed code of distances. -/
def fixedDistanceLengths : List Nat :=
  List.replicate 32 5

/-- The symbols in whose order the lengths of the code of lengths are given. -/
def lengthOrder : List Nat :=
  [16, 17, 18, 0, 8, 7, 9, 6, 10, 5, 11, 4, 12, 3, 13, 2, 14, 1, 15]

/-- The next symbol of the code of lengths; a code without symbols reads every bit as zero. -/
def lengthSymbol (c : Code) : Expand Nat :=
  if c.isEmpty then do
    let _ ← bit
    pure 0
  else c.symbol .lengthCode

/-- `total` code lengths after those in `found`, which are in reverse. -/
def codeLengths (c : Code) (total : Nat) : Nat → List Nat → Expand (List Nat)
  | 0, _ => throw .truncated
  | fuel + 1, found => do
    if found.length == total then pure found.reverse
    else
      let symbol ← lengthSymbol c
      if symbol < 16 then codeLengths c total fuel (symbol :: found)
      else
        let (value, times) ←
          if symbol == 16 then do
            let n ← number 2
            match found with
            | [] => throw (.corrupt .lengthRepeat)
            | last :: _ => pure (last, n + 3)
          else if symbol == 17 then do
            let n ← number 3
            pure (0, n + 3)
          else do
            let n ← number 7
            pure (0, n + 11)
        if found.length + times > total then throw (.corrupt .lengthRepeat)
        codeLengths c total fuel (List.replicate times value ++ found)

/-- A list of `n` numbers of three bits. -/
def shortNumbers : Nat → Expand (List Nat)
  | 0 => pure []
  | n + 1 => do
    let x ← number 3
    let rest ← shortNumbers n
    pure (x :: rest)

/-- A block whose codes come with it. -/
def dynamicBlock (fuel : Nat) : Expand Unit := do
  let literalCount := (← number 5) + 257
  let distanceCount := (← number 5) + 1
  let givenCount := (← number 4) + 4
  if literalCount > 286 || distanceCount > 30 then throw (.corrupt .symbolCount)
  let given ← shortNumbers givenCount
  let lengthLengths := (List.range 19).map fun s =>
    ((lengthOrder.zip given).lookup s).getD 0
  if !isCode false lengthLengths then throw (.corrupt .lengthCode)
  let total := literalCount + distanceCount
  let lengths ← codeLengths (Code.ofLengths lengthLengths) total (total + 1) []
  let literalLengths := lengths.take literalCount
  let distanceLengths := lengths.drop literalCount
  if literalLengths.getD endSymbol 0 == 0 then throw (.corrupt .noEndSymbol)
  if !isCode true literalLengths then throw (.corrupt .literalCode)
  if !isCode true distanceLengths then throw (.corrupt .distanceCode)
  codedBytes (Code.ofLengths literalLengths) (Code.ofLengths distanceLengths) fuel

/-- Blocks up to the last one. -/
def blocks : Nat → Expand Unit
  | 0 => throw .truncated
  | fuel + 1 => do
    let last ← bit
    let form ← number 2
    if form == 0 then storedBlock
    else if form == 1 then
      codedBytes (Code.ofLengths fixedLiteralLengths) (Code.ofLengths fixedDistanceLengths) fuel
    else if form == 2 then dynamicBlock fuel
    else throw (.corrupt .blockForm)
    if last == 1 then pure () else blocks fuel

/-- What a stream expands to, how it stopped if it did not end, and how many whole bytes are behind
what was read. -/
structure Expansion where
  emitted : List Emission
  stop : Option Stop
  left : Nat
  /-- The bytes after the stream. -/
  rest : List UInt8

/-- The bytes that a stream expands to. -/
def Expansion.output (x : Expansion) : List UInt8 :=
  x.emitted.map Emission.byte

/-- Expands the stream at the start of the bytes. -/
def inflate (bytes : List UInt8) : Expansion :=
  let bits := bytes.flatMap byteBits
  let r := (blocks (bits.length + 1)).run ⟨bits, bits.length, rfl, #[]⟩
  { emitted := r.2.emitted.toList
    stop := match r.1 with
      | .ok () => none
      | .error s => some s
    left := r.2.left
    rest := bytes.drop (bytes.length - r.2.left) }

end JsonShape.Deflate
