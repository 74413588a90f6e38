import JsonShape.Document.Deflate
import JsonShape.Text.Quoted

/-!
# Gzip

A gzip file is a row of members, each a header, a deflate stream, and the check sum and length of
what it expands to; zeros may stand between members.

The content of a file is read in blocks, through a buffer that is smaller. Each read of the buffer
asks for some number of bytes and goes on in passes until there are bytes or the file is over : a
pass feeds the next part of the file to the deflate stream and takes as much of its expansion as
there is room for (`Place.turn`). A pass that meets a corrupt place in the stream loses what it
expanded before that place, and a fault loses the block that it is met in. `Gzip.deliver` gives the
blocks that are there before a fault, or the whole content.
-/

namespace JsonShape.Gzip

/-! ## Check sums -/

/-- Shifts one bit out. -/
def shiftBit (r : UInt32) : UInt32 :=
  if r &&& 1 == 1 then (r >>> 1) ^^^ 0xEDB88320 else r >>> 1

/-- Takes one byte in. -/
def addByte (r : UInt32) (b : UInt8) : UInt32 :=
  Nat.repeat shiftBit 8 (r ^^^ b.toUInt32)

/-- The cyclic redundancy check of 32 bits that closes a member. -/
def checksum (bytes : List UInt8) : UInt32 :=
  bytes.foldl addByte 0xFFFFFFFF ^^^ 0xFFFFFFFF

/-! ## Headers and trailers -/

/-- The two bytes that a member starts with. -/
def magic : List UInt8 := [0x1F, 0x8B]

/-- Why a file is no row of members. -/
inductive Fault where
  | notGzip (start : List UInt8)
  | unknownMethod
  | endedEarly
  | wrongChecksum (stored computed : Nat)
  | wrongLength
  /-- The deflate stream of a member is corrupt. -/
  | corruptStream (cause : Deflate.Corruption)
deriving DecidableEq, Repr, Inhabited

/-- The fault in words. -/
def Fault.message : Fault → String
  | .notGzip start => "Not a gzipped file (" ++ Text.quoteBytes start ++ ")"
  | .unknownMethod => "Unknown compression method"
  | .endedEarly => "Compressed file ended before the end-of-stream marker was reached"
  | .wrongChecksum stored computed =>
    "CRC check failed 0x" ++ String.ofList (Text.hexDigits 1 stored) ++ " != 0x" ++
      String.ofList (Text.hexDigits 1 computed)
  | .wrongLength => "Incorrect length of data produced"
  | .corruptStream cause => "Error -3 while decompressing data: " ++ cause.message

/-- Number of bytes, lowest first. -/
def littleEndian (bytes : List UInt8) : Nat :=
  bytes.foldr (fun b n => b.toNat + 256 * n) 0

/-- The first `n` bytes and what follows them. -/
def exactly (n : Nat) (bytes : List UInt8) : Except Fault (List UInt8 × List UInt8) :=
  if bytes.length < n then .error .endedEarly else .ok (bytes.take n, bytes.drop n)

/-- What follows the next zero byte. -/
def afterZero (bytes : List UInt8) : List UInt8 :=
  (bytes.dropWhile (· != 0)).drop 1

/-- What follows the extra field, where the flags announce one. -/
def skipExtra (flags : Nat) (bytes : List UInt8) : Except Fault (List UInt8) :=
  if flags.testBit 2 then do
    let (size, rest) ← exactly 2 bytes
    let (_, rest') ← exactly (littleEndian size) rest
    pure rest'
  else .ok bytes

/-- What follows the header of a member. -/
def skipHeader (bytes : List UInt8) : Except Fault (List UInt8) := do
  if bytes.take 2 != magic then throw (.notGzip (bytes.take 2))
  let (fixed, rest) ← exactly 8 (bytes.drop 2)
  if fixed.head? != some 8 then throw .unknownMethod
  let flags := (fixed.getD 1 0).toNat
  let rest ← skipExtra flags rest
  let rest := if flags.testBit 3 then afterZero rest else rest
  let rest := if flags.testBit 4 then afterZero rest else rest
  if flags.testBit 1 then
    let (_, rest) ← exactly 2 rest
    pure rest
  else pure rest

/-- Tests what a member expanded to against the eight bytes after it, and gives what follows
them. -/
def checkTrailer (output bytes : List UInt8) : Except Fault (List UInt8) := do
  let (trailer, rest) ← exactly 8 bytes
  let stored := littleEndian (trailer.take 4)
  let computed := (checksum output).toNat
  if stored != computed then throw (.wrongChecksum stored computed)
  if littleEndian (trailer.drop 4) != output.length % Nat.pow 2 32 then throw .wrongLength
  pure rest

/-! ## Reading a file -/

/-- Where the reader of a file is. -/
inductive Place where
  /-- Before a member, or at the end of the file. -/
  | between (bytes : List UInt8)
  /-- In the stream of a member, of whose expansion `pending` is still to come. As many bytes as
  `left` says are not yet taken in, counted to the end of the file. -/
  | inside (x : Deflate.Expansion) (pending : List Deflate.Emission) (left : Nat)
  /-- Behind the stream of a member that expands to `output`. -/
  | behind (output rest : List UInt8)

/-- What comes of a pass. -/
inductive Turn where
  | gave (output : List UInt8) (next : Place)
  /-- The file is over. -/
  | finished
  | failed (fault : Fault)

/-- Number of bytes that a pass takes from the file. -/
def chunkSize : Nat := 8192

/-- The part of the expansion that a pass gives : what depends on nothing in the last `beyond` bytes
of the file, as far as there is room. -/
def ready (room beyond : Nat) (pending : List Deflate.Emission) : List Deflate.Emission :=
  (pending.takeWhile fun e => beyond ≤ e.left).take room

/-- A pass that does not come to the end of the stream. What it was given is taken in, up to a byte
that waits for room. -/
def resume (x : Deflate.Expansion) (pending given : List Deflate.Emission) (left : Nat) : Turn :=
  let beyond := left - chunkSize
  if given.isEmpty then
    if left = 0 then .failed .endedEarly else .gave [] (.inside x pending beyond)
  else
    let later := pending.drop given.length
    let waiting := (later.head?.map Deflate.Emission.waiting).getD x.left
    .gave (given.map Deflate.Emission.byte) (.inside x later (min left (max beyond waiting)))

/-- A pass inside a stream. A copy from before the first byte is noticed only where there is room
for the copy. -/
def streamTurn (room : Nat) (x : Deflate.Expansion) (pending : List Deflate.Emission) (left : Nat) :
    Turn :=
  let beyond := left - chunkSize
  let given := ready room beyond pending
  if given.length < pending.length ∨ x.left < beyond then resume x pending given left
  else
    match x.stop with
    | none => .gave (given.map Deflate.Emission.byte) (.behind x.output x.rest)
    | some .truncated => resume x pending given left
    | some (.corrupt cause) =>
      if cause = .farDistance ∧ given.length = room then resume x pending given left
      else .failed (.corruptStream cause)

/-- A pass, with room for so many bytes. -/
def Place.turn (room : Nat) : Place → Turn
  | .between bytes =>
    if bytes.isEmpty then .finished
    else
      match skipHeader bytes with
      | .error fault => .failed fault
      | .ok body =>
        let x := Deflate.inflate body
        .gave [] (.inside x x.emitted body.length)
  | .inside x pending left => streamTurn room x pending left
  | .behind output rest =>
    match checkTrailer output rest with
    | .error fault => .failed fault
    | .ok rest' => .gave [] (.between (rest'.dropWhile (· == 0)))

/-! ### Every pass comes closer to the end -/

/-- Part of a container was read : it took `taken` bytes at least, or failed with a fault that is
none of a deflate stream. -/
def Framed (bytes : List UInt8) (taken : Nat) : Except Fault (List UInt8) → Prop
  | .error fault => ∀ cause, fault ≠ .corruptStream cause
  | .ok rest => rest.length + taken ≤ bytes.length

theorem Framed.bind {whole bytes : List UInt8} {taken taken' : Nat} {r : Except Fault (List UInt8)}
    {f : List UInt8 → Except Fault (List UInt8)} (hr : Framed bytes taken r)
    (hf : ∀ rest, rest.length + taken ≤ bytes.length → Framed whole taken' (f rest)) :
    Framed whole taken' (r >>= f) := by
  cases r with
  | error fault => exact hr
  | ok rest => exact hf rest hr

theorem framed_bind_exactly {whole bytes : List UInt8} {n taken : Nat}
    {f : List UInt8 × List UInt8 → Except Fault (List UInt8)}
    (hf : ∀ found : List UInt8 × List UInt8, found.2.length + n ≤ bytes.length →
      Framed whole taken (f found)) : Framed whole taken (exactly n bytes >>= f) := by
  unfold exactly
  split
  next => rintro _ ⟨⟩
  next hlength =>
    refine hf _ ?_
    simp only [List.length_drop]
    omega

theorem framed_skipExtra (flags : Nat) (bytes : List UInt8) :
    Framed bytes 0 (skipExtra flags bytes) := by
  unfold skipExtra
  split
  next =>
    refine framed_bind_exactly fun size hsize => framed_bind_exactly fun extra hextra => ?_
    simp only [pure, Except.pure, Framed]
    omega
  next => exact Nat.le_refl _

/-- Skipping an optional name has no fault. -/
theorem length_skipName_le (p : Prop) [Decidable p] (bytes : List UInt8) :
    (if p then afterZero bytes else bytes).length ≤ bytes.length := by
  split
  · have hdrop := (List.dropWhile_suffix (fun b : UInt8 => b != 0) (l := bytes)).length_le
    rw [afterZero, List.length_drop]
    omega
  · exact Nat.le_refl _

theorem framed_skipHeader (bytes : List UInt8) : Framed bytes 1 (skipHeader bytes) := by
  unfold skipHeader
  split
  next => rintro _ ⟨⟩
  next hmagic =>
    have hlength : 2 ≤ bytes.length := by
      have htake := congrArg List.length (bne_eq_false_iff_eq.1 (Bool.not_eq_true _ ▸ hmagic))
      simp only [List.length_take, magic, List.length_cons, List.length_nil] at htake
      omega
    refine framed_bind_exactly ?_
    rintro ⟨fixed, body⟩ hfixed
    simp only [List.length_drop] at hfixed ⊢
    split
    next => rintro _ ⟨⟩
    next =>
      refine (framed_skipExtra _ _).bind fun rest hrest => ?_
      have hname := length_skipName_le ((fixed.getD 1 0).toNat.testBit 3 = true) rest
      have hcomment := length_skipName_le ((fixed.getD 1 0).toNat.testBit 4 = true)
        (if (fixed.getD 1 0).toNat.testBit 3 = true then afterZero rest else rest)
      split
      next =>
        refine framed_bind_exactly fun check hcheck => ?_
        simp only [pure, Except.pure, Framed]
        omega
      next =>
        simp only [pure, Except.pure, Framed]
        omega

theorem framed_checkTrailer (output bytes : List UInt8) :
    Framed bytes 0 (checkTrailer output bytes) := by
  unfold checkTrailer
  refine framed_bind_exactly fun trailer htrailer => ?_
  simp only
  split
  next => rintro _ ⟨⟩
  next =>
    split
    next => rintro _ ⟨⟩
    next =>
      simp only [pure, Except.pure, Framed]
      omega

theorem length_inflate_rest_le (bytes : List UInt8) :
    (Deflate.inflate bytes).rest.length ≤ bytes.length := by
  simp only [Deflate.inflate, List.length_drop]
  omega

/-- How far the end of the file is : first by what stands behind the member that is read, then by
what is left of its stream. -/
def Place.distance : Place → Nat × Nat
  | .between bytes => (2 * bytes.length, 0)
  | .inside x pending left => (2 * x.rest.length + 1, left + pending.length)
  | .behind _ rest => (2 * rest.length, 1)

theorem ready_prefix (room beyond : Nat) (pending : List Deflate.Emission) :
    ready room beyond pending <+: pending :=
  (List.take_prefix _ _).trans (List.takeWhile_prefix _)

/-- In a stream that is not over there is less of the expansion or of the file to come. -/
theorem distance_resume {x : Deflate.Expansion} {pending given : List Deflate.Emission} {left : Nat}
    (hgiven : given <+: pending) {output : List UInt8} {next : Place}
    (h : resume x pending given left = .gave output next) :
    Prod.Lex (· < ·) (· < ·) next.distance (Place.inside x pending left).distance := by
  unfold resume at h
  simp only at h
  split at h
  next =>
    split at h
    next => cases h
    next hleft =>
      cases h
      refine .right _ ?_
      unfold chunkSize
      omega
  next hne =>
    cases h
    have hpos : 0 < given.length := List.length_pos_iff.2 (mt List.isEmpty_iff.2 hne)
    have hle := hgiven.length_le
    refine .right _ ?_
    simp only [List.length_drop]
    omega

theorem distance_streamTurn {room left : Nat} {x : Deflate.Expansion}
    {pending : List Deflate.Emission} {output : List UInt8} {next : Place}
    (h : streamTurn room x pending left = .gave output next) :
    Prod.Lex (· < ·) (· < ·) next.distance (Place.inside x pending left).distance := by
  have hgiven := ready_prefix room (left - chunkSize) pending
  unfold streamTurn at h
  simp only at h
  split at h
  next => exact distance_resume hgiven h
  next =>
    split at h
    next =>
      cases h
      exact .left _ _ (Nat.lt_succ_self _)
    next => exact distance_resume hgiven h
    next =>
      split at h
      next => exact distance_resume hgiven h
      next => cases h

theorem distance_turn {room : Nat} {p next : Place} {output : List UInt8}
    (h : p.turn room = .gave output next) :
    Prod.Lex (· < ·) (· < ·) next.distance p.distance := by
  cases p with
  | between bytes =>
    simp only [Place.turn] at h
    split at h
    next => cases h
    next =>
      split at h
      next => cases h
      next body hheader =>
        cases h
        have hbody := framed_skipHeader bytes
        have hrest := length_inflate_rest_le body
        rw [hheader] at hbody
        simp only [Framed] at hbody
        exact .left _ _ (by omega)
  | inside x pending left => exact distance_streamTurn h
  | behind output rest =>
    simp only [Place.turn] at h
    split at h
    next => cases h
    next rest' htrailer =>
      cases h
      have hrest := framed_checkTrailer output rest
      have hzeros := (List.dropWhile_suffix (fun b : UInt8 => b == 0) (l := rest')).length_le
      rw [htrailer] at hrest
      simp only [Framed] at hrest
      simp only [Place.distance]
      obtain hlt | heq := Nat.lt_or_eq_of_le (Nat.le_trans hzeros (Nat.le_of_add_right_le hrest))
      · exact .left _ _ (by omega)
      · rw [heq]
        exact .right _ Nat.zero_lt_one

/-! ### Blocks -/

/-- Number of bytes in a block. -/
def blockSize : Nat := 65536

/-- Number of bytes in the buffer that blocks are read through. -/
def bufferSize : Nat := 8192

/-- How far the content is read. -/
structure Buffer where
  /-- The blocks that are complete. -/
  delivered : List UInt8 := []
  /-- The start of the next block. -/
  current : List UInt8 := []
  /-- Number of bytes of the buffer that were filled for this block. -/
  filled : Nat := 0

/-- Number of bytes that the block lacks. -/
def Buffer.lacking (b : Buffer) : Nat :=
  blockSize - b.current.length

/-- How many bytes the next read asks for : whole buffers go into the block at once, and the end of
a block comes through the buffer, which is read to its end. -/
def Buffer.room (b : Buffer) : Nat :=
  if bufferSize ≤ b.lacking then b.lacking / bufferSize * bufferSize else bufferSize - b.filled

/-- Adds what was read. What is beyond the end of the block is the start of the next one. -/
def Buffer.add (b : Buffer) (output : List UInt8) : Buffer :=
  if b.lacking ≤ output.length then
    { delivered := b.delivered ++ b.current ++ output.take b.lacking
      current := output.drop b.lacking }
  else
    { b with
      current := b.current ++ output
      filled := if bufferSize ≤ b.lacking then 0 else b.filled + output.length }

/-- The content of a file, as far as it is delivered, and the fault that ends it early if there is
one. -/
structure Content where
  bytes : List UInt8
  fault : Option Fault

/-- Reads on from a place. -/
def readOn (b : Buffer) (p : Place) : Content :=
  match _hturn : p.turn b.room with
  | .finished => ⟨b.delivered ++ b.current, none⟩
  | .failed fault => ⟨b.delivered, some fault⟩
  | .gave output next => readOn (b.add output) next
termination_by p.distance
decreasing_by exact distance_turn _hturn

/-- What reading a file delivers. -/
def deliver (bytes : List UInt8) : Content :=
  readOn {} (.between bytes)

end JsonShape.Gzip
