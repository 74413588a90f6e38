import Mathlib.Data.List.TakeWhile
import Mathlib.Order.Nat
import JsonShape.Document.Load
import JsonShape.Proofs.Delivery
import JsonShape.Proofs.Grammar
import JsonShape.Proofs.NumberGrammar

/-!
# How decoding ends

A call that decodes bytes should return their documents or fail with a report that names their
source. There are three things that reading may meet on its way and that end it otherwise : a string
that has the form of UTF-8 and encodes no characters, a number beyond the bounds of a decimal, and
a corrupt deflate stream in compressed bytes. `decoding_ends` says that the call ends as it should
exactly if it meets none of them, and how it ends if it does.

Strings and numbers are met at the places that reading comes to (`Json.Dialect.Reaches`), in what
the bytes deliver. A corrupt stream is met after the whole members before it (`Gzip.CorruptFrom`),
unless what was delivered before the fault has one of its own. It takes with it what was read
ahead : a string or a number that stands shortly before it may never be met.
-/

namespace JsonShape

open Json.Dialect (readWord afterWord?)

namespace Report

@[simp]
theorem kind_input (kind : Kind) (message : String) (path line : Value) :
    (input kind message path line).kind = kind := rfl

@[simp]
theorem details_input_null (kind : Kind) (message : String) :
    (input kind message .null .null).details = [] := rfl

theorem details_input_text {source : String} (hsource : source ≠ "") (kind : Kind)
    (message : String) :
    (input kind message (.text source) .null).details = [("file_path", .text source)] := by
  simp [input, withGiven, isGiven, isFalsy, hsource]

end Report

/-! ## Strings and numbers of a stream -/

namespace Document

theorem length_lt_of_readPieces {owed : Nat} {done pieces : List Piece} {cs rest : List Char}
    (h : readPieces owed done cs = .ok (pieces, rest)) : rest.length < cs.length := by
  fun_induction readPieces owed done cs with
  | case1 | case3 | case5 | case6 | case8 | case9 | case11 | case12 => cases h
  | case4 => cases h; simp
  | case2 _ _ _ _ _ _ ih | case7 _ _ _ _ _ _ _ _ _ ih | case10 _ _ _ _ _ _ _ ih
  | case13 _ _ _ _ _ _ _ _ _ ih =>
    have hlt := ih h
    simp only [List.length_cons]
    omega

theorem readPieces_fault {owed : Nat} {done : List Piece} {cs : List Char} {fault : StreamFault}
    (h : readPieces owed done cs = .error fault) : fault = .malformed ∨ fault = .truncated := by
  fun_induction readPieces owed done cs with
  | case1 | case3 | case5 | case6 | case9 | case11 | case12 => cases h; simp
  | case4 => cases h
  | case8 => cases h; split <;> simp
  | case2 _ _ _ _ _ _ ih | case7 _ _ _ _ _ _ _ _ _ ih | case10 _ _ _ _ _ _ _ ih
  | case13 _ _ _ _ _ _ _ _ _ ih => exact ih h

theorem length_afterWord? {word cs rest : List Char}
    (h : afterWord? word cs = some rest) :
    rest.length + word.length = cs.length := by
  fun_induction afterWord? word cs with
  | case1 => cases h; rfl
  | case2 w ws c cs hw ih =>
    have := ih h
    simp only [List.length_cons]
    omega
  | case3 => cases h
  | case4 => cases h

theorem exists_word_of_readWord {cs rest : List Char} {v : Value}
    (h : readWord words cs = some (v, rest)) :
    ∃ w ∈ words, w.2 = v ∧ afterWord? w.1.toList cs = some rest := by
  obtain ⟨w, hw, hfound⟩ := List.exists_of_findSome?_eq_some h
  obtain ⟨after, hafter, heq⟩ := Option.map_eq_some_iff.1 hfound
  cases heq
  exact ⟨w, hw, rfl, hafter⟩

theorem word_start {w : String × Value} (hw : w ∈ words) :
    ∃ c rest, w.1.toList = c :: rest ∧ c ≠ '-' ∧ Text.isAsciiDigit c = false := by
  simp only [words, List.mem_cons, List.not_mem_nil, or_false] at hw
  obtain rfl | rfl | rfl := hw
  all_goals exact ⟨_, _, rfl, by decide, by decide⟩

/-- A string, given from its opening quote on, whose bytes have the form of UTF-8 and encode no
characters. -/
def IllEncoded (cs : List Char) (reason : Utf8.Fault) : Prop :=
  ∃ pieces rest, readPieces 0 [] cs = .ok (pieces, rest) ∧
    Utf8.decode (pieceBytes [] pieces) = .error reason

/-- A number with a fraction or an exponent, beyond the bounds of a decimal. If the characters are
not `whole`, something stands behind it. -/
def OutOfRange (whole : Bool) (cs : List Char) : Prop :=
  ∃ l rest, NumberLiteral.scan cs = some (l, rest) ∧ (whole = false → rest ≠ []) ∧
    l.isInteger = false ∧ l.toDecimal.inRange = false

theorem readText_cases (cs : List Char) :
    readText cs = .error .malformed ∨ readText cs = .error .truncated ∨
    (∃ reason, readText cs = .error (.invalidUtf8 reason) ∧ IllEncoded cs reason) ∨
    ∃ s rest, readText cs = .ok (s, rest) ∧ rest.length ≤ cs.length := by
  unfold readText
  split
  next fault hpieces =>
    obtain rfl | rfl := readPieces_fault hpieces
    · exact .inl rfl
    · exact .inr (.inl rfl)
  next pieces rest hpieces =>
    split
    next reason hdecode => exact .inr (.inr (.inl ⟨reason, rfl, pieces, rest, hpieces, hdecode⟩))
    next s hdecode => exact .inr (.inr (.inr ⟨s, rest, rfl, (length_lt_of_readPieces hpieces).le⟩))

theorem readText_of_illEncoded {cs : List Char} {reason : Utf8.Fault} (h : IllEncoded cs reason) :
    readText cs = .error (.invalidUtf8 reason) := by
  obtain ⟨pieces, rest, hpieces, hdecode⟩ := h
  simp [readText, hpieces, hdecode]

theorem readAtom_cases (whole : Bool) (cs : List Char) :
    readAtom whole cs = .error .malformed ∨ readAtom whole cs = .error .truncated ∨
    (readAtom whole cs = .error .exponentOutOfRange ∧ OutOfRange whole cs) ∨
    ∃ v rest, readAtom whole cs = .ok (v, rest) ∧ rest.length < cs.length := by
  unfold readAtom
  split
  next found hword =>
    obtain ⟨w, hw, -, hafter⟩ := exists_word_of_readWord hword
    have hlength := length_afterWord? hafter
    obtain ⟨c, ws, hstart, -⟩ := word_start hw
    rw [hstart, List.length_cons] at hlength
    exact .inr (.inr (.inr ⟨found.1, found.2, rfl, by omega⟩))
  next =>
    split
    next =>
      split
      next => exact .inr (.inl rfl)
      next => exact .inl rfl
    next l rest hscan =>
      have hlength := NumberLiteral.length_lt_of_scan hscan
      split
      next => exact .inr (.inl rfl)
      next hopen =>
        unfold ofLiteral
        split
        next fault hvalue =>
          split at hvalue
          next => cases hvalue
          next hint =>
            split at hvalue
            next => cases hvalue
            next hrange =>
              cases hvalue
              refine .inr (.inr (.inl ⟨rfl, l, rest, hscan, ?_, by simpa using hint,
                by simpa using hrange⟩))
              rintro rfl rfl
              exact hopen rfl
        next v hvalue => exact .inr (.inr (.inr ⟨v, rest, rfl, hlength⟩))

/-- No word starts like a number. -/
theorem readWord_eq_none_of_scan {cs rest : List Char} {l : NumberLiteral}
    (h : NumberLiteral.scan cs = some (l, rest)) : readWord words cs = none := by
  cases hword : readWord words cs with
  | none => rfl
  | some found =>
    obtain ⟨w, hw, -, hafter⟩ := exists_word_of_readWord hword
    obtain ⟨c, ws, hstart, hminus, hdigit⟩ := word_start hw
    rw [hstart] at hafter
    cases cs with
    | nil => cases hafter
    | cons c' cs =>
      obtain rfl : c = c' := by
        rw [afterWord?] at hafter
        split at hafter
        next hc => exact beq_iff_eq.1 hc
        next => cases hafter
      obtain ⟨d, inner, hcs, hd⟩ := NumberLiteral.head_of_scan h
      obtain rfl := (List.cons.inj hcs).1
      rcases hd with hd | hd
      · exact absurd hd hminus
      · exact absurd hd (Bool.eq_false_iff.1 hdigit)

theorem readAtom_of_outOfRange {whole : Bool} {cs : List Char} (h : OutOfRange whole cs) :
    readAtom whole cs = .error .exponentOutOfRange := by
  obtain ⟨l, rest, hscan, hopen, hint, hrange⟩ := h
  have hopen' : (rest.isEmpty && !whole) = false := by
    cases whole with
    | true => simp
    | false => simpa using hopen rfl
  simp [readAtom, readWord_eq_none_of_scan hscan, hscan, hopen', ofLiteral, hint, hrange]

theorem consuming_dialect (whole : Bool) : (dialect whole).Consuming where
  text {cs s rest} h := by
    obtain hcase | hcase | ⟨_, hcase, -⟩ | ⟨_, _, hcase, hlength⟩ := readText_cases cs
    all_goals cases hcase.symm.trans h
    exact hlength
  atom {cs v rest} h := by
    obtain hcase | hcase | ⟨hcase, -⟩ | ⟨_, _, hcase, hlength⟩ := readAtom_cases whole cs
    all_goals cases hcase.symm.trans h
    exact hlength

section

variable {whole : Bool} {bytes : List UInt8}

theorem readDocuments_illEncoded_iff {reason : Utf8.Fault} :
    readDocuments whole bytes = .error (.invalidUtf8 reason) ↔
      ∃ cs, (dialect whole).Reaches (.stream (byteChars bytes)) (.text cs) ∧
        IllEncoded cs reason := by
  have hmalformed : .invalidUtf8 reason ≠ (dialect whole).malformed := by rintro ⟨⟩
  have htruncated : .invalidUtf8 reason ≠ (dialect whole).truncated := by rintro ⟨⟩
  rw [readDocuments,
    Json.Dialect.stream_fails_iff hmalformed htruncated (consuming_dialect whole)]
  constructor
  · rintro (⟨cs, hreach, hfault⟩ | ⟨cs, -, hfault⟩)
    · obtain hcase | hcase | ⟨_, hcase, hill⟩ | ⟨_, _, hcase, -⟩ := readText_cases cs
      all_goals cases hcase.symm.trans hfault
      exact ⟨cs, hreach, hill⟩
    · obtain hcase | hcase | ⟨hcase, -⟩ | ⟨_, _, hcase, -⟩ := readAtom_cases whole cs
      all_goals cases hcase.symm.trans hfault
  · rintro ⟨cs, hreach, hill⟩
    exact .inl ⟨cs, hreach, readText_of_illEncoded hill⟩

theorem readDocuments_outOfRange_iff :
    readDocuments whole bytes = .error .exponentOutOfRange ↔
      ∃ cs, (dialect whole).Reaches (.stream (byteChars bytes)) (.atom cs) ∧
        OutOfRange whole cs := by
  have hmalformed : .exponentOutOfRange ≠ (dialect whole).malformed := by rintro ⟨⟩
  have htruncated : .exponentOutOfRange ≠ (dialect whole).truncated := by rintro ⟨⟩
  rw [readDocuments,
    Json.Dialect.stream_fails_iff hmalformed htruncated (consuming_dialect whole)]
  constructor
  · rintro (⟨cs, -, hfault⟩ | ⟨cs, hreach, hfault⟩)
    · obtain hcase | hcase | ⟨_, hcase, -⟩ | ⟨_, _, hcase, -⟩ := readText_cases cs
      all_goals cases hcase.symm.trans hfault
    · obtain hcase | hcase | ⟨hcase, hrange⟩ | ⟨_, _, hcase, -⟩ := readAtom_cases whole cs
      all_goals cases hcase.symm.trans hfault
      exact ⟨cs, hreach, hrange⟩
  · rintro ⟨cs, hreach, hrange⟩
    exact .inr ⟨cs, hreach, readAtom_of_outOfRange hrange⟩

end

/-! ### Blanks -/

theorem toNat_ofNat_byte (b : UInt8) : (Char.ofNat b.toNat).toNat = b.toNat := by
  have h : b.toNat.isValidChar := .inl (Nat.lt_trans b.toNat_lt (by decide))
  rw [Char.ofNat, dif_pos h]
  rfl

/-- The bytes that do not count as content are those that the grammar passes over. -/
theorem isJsonBlank_byte_iff {b : UInt8} :
    Text.isJsonBlank (Char.ofNat b.toNat) = true ↔ b ∈ blankBytes := by
  simp only [Text.isJsonBlank, toNat_ofNat_byte, blankBytes, List.mem_cons, List.not_mem_nil,
    or_false, ← UInt8.toNat_inj, Bool.or_eq_true, Bool.and_eq_true, beq_iff_eq, decide_eq_true_iff]
  simp only [UInt8.reduceToNat]
  omega

theorem hasContent_eq_false_iff {bytes : List UInt8} :
    hasContent bytes = false ↔ ∀ b ∈ bytes, b ∈ blankBytes := by
  simp [hasContent]

theorem skip_byteChars_eq_nil_iff (whole : Bool) {bytes : List UInt8} :
    (dialect whole).skip (byteChars bytes) = [] ↔ ∀ b ∈ bytes, b ∈ blankBytes := by
  rw [Json.Dialect.skip, List.dropWhile_eq_nil_iff, byteChars, List.forall_mem_map]
  exact forall₂_congr fun b _ => isJsonBlank_byte_iff

/-- Only blanks hold no documents. -/
theorem readDocuments_eq_nil_iff {bytes : List UInt8} :
    readDocuments true bytes = .ok [] ↔ ∀ b ∈ bytes, b ∈ blankBytes := by
  rw [← skip_byteChars_eq_nil_iff true, readDocuments,
    Json.Dialect.stream_eq (consuming_dialect true)]
  split
  next hskip => simp [hskip]
  next c rest hskip =>
    simp only [hskip, reduceCtorEq, iff_false]
    split
    next => simp
    next =>
      split
      next => simp
      next => simp

theorem decodeContent_eq (source : String) (bytes : List UInt8) :
    decodeContent source bytes = (readDocuments true bytes).mapError (.stream · source) := by
  unfold decodeContent decodePlain
  cases hread : readDocuments true bytes with
  | ok documents =>
    cases documents with
    | nil =>
      have hblank := hasContent_eq_false_iff.2 (readDocuments_eq_nil_iff.1 hread)
      simp [hblank, StreamFault.breaksGrammar, Except.mapError]
    | cons document documents => rfl
  | error fault =>
    have hcontent : hasContent bytes = true := by
      rw [← Bool.not_eq_false, hasContent_eq_false_iff, ← readDocuments_eq_nil_iff, hread]
      rintro ⟨⟩
    simp [hcontent, Except.mapError]

/-! ## What is met first -/

/-- The bytes deliver all that they hold. -/
def isWhole (bytes : List UInt8) : Bool :=
  (delivery true bytes).fault.isNone

/-- The documents of what the bytes deliver. -/
def readDelivered (bytes : List UInt8) : Except StreamFault (List Value) :=
  readDocuments (isWhole bytes) (delivery true bytes).bytes

/-- Reading what the bytes deliver, the reader comes to this place. -/
def ComesTo (bytes : List UInt8) (spot : Json.Dialect.Spot) : Prop :=
  (dialect (isWhole bytes)).Reaches (.stream (byteChars (delivery true bytes).bytes)) spot

/-- Reading comes to a string that has the form of UTF-8 and encodes no characters. -/
def MeetsIllEncoded (bytes : List UInt8) : Prop :=
  ∃ reason cs, ComesTo bytes (.text cs) ∧ IllEncoded cs reason

/-- Reading comes to a number beyond the bounds of a decimal. -/
def MeetsOutOfRange (bytes : List UInt8) : Prop :=
  ∃ cs, ComesTo bytes (.atom cs) ∧ OutOfRange (isWhole bytes) cs

/-- After whole members comes a corrupt deflate stream, and what is delivered before it has no fault
but that it ends too early. -/
def MeetsCorrupt (bytes : List UInt8) : Prop :=
  bytes.take 2 = Gzip.magic ∧ (∃ cause, Gzip.CorruptFrom bytes cause) ∧
    ∀ fault, readDelivered bytes = .error fault → fault = .truncated

theorem meetsIllEncoded_iff {bytes : List UInt8} : MeetsIllEncoded bytes ↔
    ∃ reason, readDelivered bytes = .error (.invalidUtf8 reason) := by
  simp only [MeetsIllEncoded, ComesTo, readDelivered, readDocuments_illEncoded_iff]

theorem meetsOutOfRange_iff {bytes : List UInt8} : MeetsOutOfRange bytes ↔
    readDelivered bytes = .error .exponentOutOfRange := by
  simp only [MeetsOutOfRange, ComesTo, readDelivered, readDocuments_outOfRange_iff]

theorem meetsCorrupt_iff {bytes : List UInt8} : MeetsCorrupt bytes ↔
    (∃ cause, (delivery true bytes).fault = some (.corruptStream cause)) ∧
      ∀ fault, readDelivered bytes = .error fault → fault = .truncated := by
  simp only [MeetsCorrupt, ← Gzip.deliver_fault_iff, delivery, Bool.true_and, beq_iff_eq]
  split
  next hmagic => simp [hmagic]
  next hmagic => simp [hmagic]

/-- Bytes that deliver all that they hold have the documents that are read from it. -/
theorem decode_of_whole {bytes : List UInt8} (h : (delivery true bytes).fault = none)
    (source : String) :
    decode source true bytes = (readDelivered bytes).mapError (.stream · source) := by
  have hwhole : isWhole bytes = true := by rw [isWhole, h, Option.isNone_none]
  rw [decode, h, readDelivered, hwhole]
  exact decodeContent_eq source _

/-- A fault of the compression is met at the end of what is delivered before it. -/
theorem decode_of_broken {bytes : List UInt8} {fault : Gzip.Fault}
    (h : (delivery true bytes).fault = some fault) (source : String) :
    decode source true bytes = .error (decodeBroken source (delivery true bytes).bytes fault) ∧
      readDelivered bytes = readDocuments false (delivery true bytes).bytes := by
  have hbroken : isWhole bytes = false := by rw [isWhole, h, Option.isNone_some]
  constructor
  · rw [decode, h]
  · rw [readDelivered, hbroken]

/-- Bytes that do not look compressed are read as they are. -/
theorem decodeBytes_of_plain {bytes : List UInt8} (h : ¬ Gzip.magic <+: bytes) :
    decodeBytes bytes = (readDocuments true bytes).mapError (.stream · inHand) := by
  have hplain : (bytes.take 2 == Gzip.magic) = false :=
    beq_false_of_ne fun htake => h (List.prefix_iff_eq_take.2 htake.symm)
  rw [decodeBytes, decode, delivery, hplain, Bool.and_false, if_neg Bool.false_ne_true]
  exact decodeContent_eq inHand bytes

/-! ## How a call ends -/

section

variable {ε : Type} (report? : ε → Option Report)

/-- The call returns documents, or fails with a report that names the source. -/
def EndsDocumented (source : String) (r : Except ε (List Value)) : Prop :=
  (∃ documents, r = .ok documents) ∨ ∃ fault report, r = .error fault ∧
    report? fault = some report ∧ report.kind = .dataFormat ∧
    report.details = [("file_path", .text source)]

/-- The call fails with a report that names no source. -/
def EndsUnplaced (r : Except ε (List Value)) : Prop :=
  ∃ fault report, r = .error fault ∧ report? fault = some report ∧
    report.kind = .dataFormat ∧ report.details = []

/-- The call fails with a fault that has no report. -/
def EndsUnreported (r : Except ε (List Value)) : Prop :=
  ∃ fault, r = .error fault ∧ report? fault = none

/-- How a call ends that decodes bytes from a source. -/
structure Ends (source : String) (bytes : List UInt8) (r : Except ε (List Value)) : Prop where
  documented_iff : EndsDocumented report? source r ↔
    ¬MeetsIllEncoded bytes ∧ ¬MeetsOutOfRange bytes ∧ ¬MeetsCorrupt bytes
  unplaced_iff : EndsUnplaced report? r ↔ MeetsIllEncoded bytes
  unreported_iff : EndsUnreported report? r ↔ MeetsOutOfRange bytes ∨ MeetsCorrupt bytes

theorem endsDocumented_mapError {ε' : Type} (f : ε' → ε) {source : String}
    {r : Except ε' (List Value)} :
    EndsDocumented report? source (r.mapError f) ↔ EndsDocumented (report? ∘ f) source r := by
  cases r <;> simp [EndsDocumented, Except.mapError]

theorem endsUnplaced_mapError {ε' : Type} (f : ε' → ε) {r : Except ε' (List Value)} :
    EndsUnplaced report? (r.mapError f) ↔ EndsUnplaced (report? ∘ f) r := by
  cases r <;> simp [EndsUnplaced, Except.mapError]

theorem endsUnreported_mapError {ε' : Type} (f : ε' → ε) {r : Except ε' (List Value)} :
    EndsUnreported report? (r.mapError f) ↔ EndsUnreported (report? ∘ f) r := by
  cases r <;> simp [EndsUnreported, Except.mapError]

/-- A fault that is wrapped keeps its report. -/
theorem Ends.mapError {ε' : Type} {f : ε' → ε} {source : String} {bytes : List UInt8}
    {r : Except ε' (List Value)} (h : Ends (report? ∘ f) source bytes r) :
    Ends report? source bytes (r.mapError f) := by
  refine ⟨?_, ?_, ?_⟩
  · rw [endsDocumented_mapError]
    exact h.documented_iff
  · rw [endsUnplaced_mapError]
    exact h.unplaced_iff
  · rw [endsUnreported_mapError]
    exact h.unreported_iff

end

section

variable {source : String} (hsource : source ≠ "")

include hsource

theorem endsDocumented_stream_iff {fault : StreamFault} :
    EndsDocumented DecodeFault.report? source (.error (.stream fault source)) ↔
      fault = .malformed ∨ fault = .truncated := by
  cases fault <;> simp [EndsDocumented, DecodeFault.report?, Report.details_input_text hsource]

theorem endsUnplaced_stream_iff {fault : StreamFault} :
    EndsUnplaced DecodeFault.report? (.error (.stream fault source)) ↔
      ∃ reason, fault = .invalidUtf8 reason := by
  cases fault <;> simp [EndsUnplaced, DecodeFault.report?, Report.details_input_text hsource]

omit hsource in
theorem endsUnreported_stream_iff {fault : StreamFault} :
    EndsUnreported DecodeFault.report? (.error (.stream fault source)) ↔
      fault = .exponentOutOfRange := by
  cases fault <;> simp [EndsUnreported, DecodeFault.report?]

theorem endsDocumented_gzip_iff {fault : Gzip.Fault} :
    EndsDocumented DecodeFault.report? source (.error (.gzip fault source)) ↔
      ∀ cause, fault ≠ .corruptStream cause := by
  cases fault <;> simp [EndsDocumented, DecodeFault.report?, Report.details_input_text hsource]

theorem not_endsUnplaced_gzip {fault : Gzip.Fault} :
    ¬EndsUnplaced DecodeFault.report? (.error (.gzip fault source)) := by
  cases fault <;> simp [EndsUnplaced, DecodeFault.report?, Report.details_input_text hsource]

omit hsource in
theorem endsUnreported_gzip_iff {fault : Gzip.Fault} :
    EndsUnreported DecodeFault.report? (.error (.gzip fault source)) ↔
      ∃ cause, fault = .corruptStream cause := by
  cases fault <;> simp [EndsUnreported, DecodeFault.report?]

/-- The expansion ends in a fault, and reading comes to it. -/
theorem ends_gzip {bytes : List UInt8} {fault : Gzip.Fault}
    (hexpand : (delivery true bytes).fault = some fault)
    (hread : ∀ earlier, readDelivered bytes = .error earlier → earlier = .truncated) :
    Ends DecodeFault.report? source bytes (.error (.gzip fault source)) := by
  have hcorrupt : MeetsCorrupt bytes ↔ ∃ cause, fault = .corruptStream cause := by
    simp only [meetsCorrupt_iff, hexpand, Option.some.injEq]
    exact and_iff_left hread
  have hill : ¬MeetsIllEncoded bytes := by
    rw [meetsIllEncoded_iff]
    rintro ⟨reason, hreason⟩
    cases hread _ hreason
  have hrange : ¬MeetsOutOfRange bytes := by
    rw [meetsOutOfRange_iff]
    intro hfault
    cases hread _ hfault
  refine ⟨?_, ?_, ?_⟩
  · rw [endsDocumented_gzip_iff hsource, hcorrupt, not_exists]
    simp [hill, hrange]
  · exact iff_of_false (not_endsUnplaced_gzip hsource) hill
  · rw [endsUnreported_gzip_iff, hcorrupt]
    simp [hrange]

/-- Reading meets a fault. -/
theorem ends_stream {bytes : List UInt8} {fault : StreamFault}
    (hread : readDelivered bytes = .error fault)
    (hexpand : (delivery true bytes).fault = none ∨ fault ≠ .truncated) :
    Ends DecodeFault.report? source bytes (.error (.stream fault source)) := by
  have hcorrupt : ¬MeetsCorrupt bytes := by
    rw [meetsCorrupt_iff]
    rintro ⟨⟨cause, hcause⟩, htruncated⟩
    obtain hnone | hne := hexpand
    · cases hnone.symm.trans hcause
    · exact hne (htruncated fault hread)
  refine ⟨?_, ?_, ?_⟩
  · rw [endsDocumented_stream_iff hsource, meetsIllEncoded_iff, meetsOutOfRange_iff, hread]
    cases fault <;> simp [hcorrupt]
  · rw [endsUnplaced_stream_iff hsource, meetsIllEncoded_iff, hread]
    simp
  · rw [endsUnreported_stream_iff, meetsOutOfRange_iff, hread]
    simp [hcorrupt]

omit hsource in
/-- Nothing is met, and the documents are returned. -/
theorem ends_ok {bytes : List UInt8} {documents : List Value}
    (hread : readDelivered bytes = .ok documents)
    (hexpand : (delivery true bytes).fault = none) :
    Ends DecodeFault.report? source bytes (.ok documents) := by
  have hill : ¬MeetsIllEncoded bytes := by simp [meetsIllEncoded_iff, hread]
  have hrange : ¬MeetsOutOfRange bytes := by simp [meetsOutOfRange_iff, hread]
  have hcorrupt : ¬MeetsCorrupt bytes := by simp [meetsCorrupt_iff, hexpand]
  refine ⟨iff_of_true (.inl ⟨documents, rfl⟩) ⟨hill, hrange, hcorrupt⟩, ?_, ?_⟩
  · exact iff_of_false (by simp [EndsUnplaced]) hill
  · exact iff_of_false (by simp [EndsUnreported]) (by simp [hrange, hcorrupt])

theorem ends_decode (bytes : List UInt8) :
    Ends DecodeFault.report? source bytes (decode source true bytes) := by
  cases hfault : (delivery true bytes).fault with
  | none =>
    rw [decode_of_whole hfault]
    cases hread : readDelivered bytes with
    | ok documents => exact ends_ok hread hfault
    | error fault => exact ends_stream hsource hread (.inl hfault)
  | some fault =>
    obtain ⟨hdecode, hdelivered⟩ := decode_of_broken hfault source
    rw [hdecode, decodeBroken, ← hdelivered]
    split
    next hread => exact ends_gzip hsource hfault (by simp [hread])
    next hread => exact ends_gzip hsource hfault (by simp [hread])
    next earlier hother hread =>
      exact ends_stream hsource hread (.inr fun htruncated => hother htruncated)

end

/-- Decoding returns the documents, or fails with a report that names the source, exactly if it
meets none of three things on its way : a string that is no UTF-8, for which the report names no
source, a number beyond the bounds of a decimal, and a corrupt deflate stream, for which there is
no report. This is so of bytes in hand and of a file that can be read. -/
theorem decoding_ends (bytes : List UInt8) :
    Ends DecodeFault.report? inHand bytes (decodeBytes bytes) ∧
    ∀ (tree : FileTree) (input : StandardInput) (path : String), path ≠ standardPath →
      tree.read path = .ok bytes →
      Ends LoadFault.report? path bytes (load tree input path) := by
  refine ⟨ends_decode (by decide) bytes, fun tree input path hpath hread => ?_⟩
  have hload : load tree input path = (decode path true bytes).mapError .decode := by
    simp [load, hpath, hread]
  have hne : path ≠ "" := by
    rintro rfl
    cases hread
  rw [hload]
  exact Ends.mapError LoadFault.report? (f := LoadFault.decode) (ends_decode hne bytes)

/-- A list that is never closed; its second item is half of a pair. -/
def halfPair : List UInt8 :=
  [0x5B, 0x30, 0x2C, 0x22, 0x5C, 0x75, 0x64, 0x63, 0x30, 0x30, 0x22]

theorem meetsIllEncoded_halfPair : MeetsIllEncoded halfPair := by
  have hill : IllEncoded ['\\', 'u', 'd', 'c', '0', '0', '"'] .invalidContinuation :=
    ⟨[.code 0xDC00], [], rfl, rfl⟩
  refine ⟨_, _, ?_, hill⟩
  refine .head (.document rfl) ?_
  refine .head (.array rfl) ?_
  refine .head (.nextItem rfl rfl) ?_
  refine .head (.item _) ?_
  exact .single (.string rfl)

theorem decoding_ends_half_pair :
    ({ nodes := [(["in.json"], .file halfPair)] } : FileTree).read "in.json" = .ok halfPair ∧
    EndsUnplaced LoadFault.report?
      (load { nodes := [(["in.json"], .file halfPair)] } .interrupted "in.json") :=
  ⟨rfl, ((decoding_ends halfPair).2 _ .interrupted "in.json" (by decide) rfl).unplaced_iff.2
    meetsIllEncoded_halfPair⟩

/-- A number that no decimal holds. -/
def hugeNumber : List UInt8 :=
  [0x31, 0x65, 0x39, 0x39, 0x39, 0x39, 0x39, 0x39, 0x39, 0x39, 0x39, 0x39, 0x39, 0x39, 0x39, 0x39,
    0x39, 0x39, 0x39, 0x39, 0x39]

/-- A header, and a deflate stream with a block of a form that there is not. -/
def unknownBlock : List UInt8 :=
  [0x1F, 0x8B, 0x08, 0x00, 0x00, 0x00, 0x00, 0x00, 0x00, 0x03, 0x07]

theorem deliver_unknownBlock :
    Gzip.deliver unknownBlock = ⟨[], some (.corruptStream .blockForm)⟩ := by
  have hheader : (Gzip.Place.between unknownBlock).turn (Gzip.Buffer.room {}) =
      .gave [] (.inside (Deflate.inflate [0x07]) (Deflate.inflate [0x07]).emitted 1) := rfl
  have hempty : (Deflate.inflate [0x07]).emitted = [] := by decide +kernel
  have hstop : (Deflate.inflate [0x07]).stop = some (.corrupt .blockForm) := by decide +kernel
  rw [Gzip.deliver, Gzip.readOn_of_gave hheader, hempty, Gzip.readOn_of_failed]
  · rfl
  · simp [Gzip.Place.turn, Gzip.streamTurn, Gzip.ready, Gzip.chunkSize, hstop]

/-- Each of the three is met by some bytes, and ends decoding in another way than documented. -/
theorem decoding_ends_undocumented :
    ¬EndsDocumented DecodeFault.report? inHand (decodeBytes halfPair) ∧
    EndsUnreported DecodeFault.report? (decodeBytes hugeNumber) ∧
    EndsUnreported DecodeFault.report? (decodeBytes unknownBlock) := by
  have hsource : inHand ≠ "" := by decide
  have hends := ends_decode hsource
  refine ⟨?_, ?_, ?_⟩
  · rw [decodeBytes, (hends halfPair).documented_iff]
    exact fun h => h.1 meetsIllEncoded_halfPair
  · refine (hends hugeNumber).unreported_iff.2 (.inl ?_)
    have hrange : OutOfRange (isWhole hugeNumber) (byteChars hugeNumber) :=
      ⟨_, [], rfl, by rintro ⟨⟩, rfl, by decide +kernel⟩
    exact ⟨byteChars hugeNumber, .head (.document rfl) (.single (.atom rfl)), hrange⟩
  · refine (hends unknownBlock).unreported_iff.2 (.inr ⟨rfl, ?_, ?_⟩)
    · exact ⟨.blockForm, Gzip.deliver_fault_iff.1 (by rw [deliver_unknownBlock])⟩
    · have hdelivery : delivery true unknownBlock = Gzip.deliver unknownBlock := if_pos rfl
      rw [readDelivered, hdelivery, deliver_unknownBlock]
      rintro _ ⟨⟩

end Document

end JsonShape
