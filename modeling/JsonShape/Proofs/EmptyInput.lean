import JsonShape.Proofs.DecodeReport

/-!
# Input without documents

Input of nothing but blanks holds no documents, and decoding it is no failure. That there are none
is told from a fault of the grammar and from the bytes that went by, so the bytes that do not count
as content have to be those that the grammar passes over (`isJsonBlank_byte_iff`).
`Document.decodeBytes_eq_nil_iff` says that decoding gives no documents exactly if the input, or
what it expands to, consists of blanks. Truncated or broken input never passes for empty input.

What compressed input expands to is told by `Gzip.Holds`, which asks that the file is a row of whole
members.
-/

namespace JsonShape

/-! ## Blanks alone -/

namespace Document

variable {bytes content : List UInt8}

/-- What documents are read from : bytes that do not look compressed are read as they are, and of
others the content, if they are a whole compressed file. -/
inductive ContentOf (bytes : List UInt8) : List UInt8 → Prop
  | plain (h : ¬ Gzip.magic <+: bytes) : ContentOf bytes bytes
  | compressed {content : List UInt8} (h : Gzip.magic <+: bytes)
    (hholds : Gzip.Holds bytes content) : ContentOf bytes content

/-- There is content, and it consists of blanks. -/
def OnlyBlanks (bytes : List UInt8) : Prop :=
  ∃ content, ContentOf bytes content ∧ ∀ b ∈ content, b ∈ blankBytes

theorem take_two_beq_magic (h : Gzip.magic <+: bytes) : (bytes.take 2 == Gzip.magic) = true :=
  beq_iff_eq.2 (List.prefix_iff_eq_take.1 h).symm

theorem delivery_of_magic (h : Gzip.magic <+: bytes) :
    delivery true bytes = Gzip.deliver bytes := by
  rw [delivery, take_two_beq_magic h, Bool.and_true, if_pos rfl]

theorem decodeBytes_of_contentOf (h : ContentOf bytes content) :
    decodeBytes bytes = (readDocuments true content).mapError (.stream · inHand) := by
  cases h with
  | plain hplain => exact decodeBytes_of_plain hplain
  | compressed hmagic hholds =>
    have hdelivery := (delivery_of_magic hmagic).trans (Gzip.deliver_of_holds hholds)
    rw [decodeBytes, decode_of_whole (by rw [hdelivery]), readDelivered, isWhole, hdelivery]
    rfl

/-- A compressed file that is not whole is no input. -/
theorem decodeBytes_fails_of_fault {fault : Gzip.Fault} (hmagic : Gzip.magic <+: bytes)
    (hfault : (Gzip.deliver bytes).fault = some fault) :
    ∃ fault, decodeBytes bytes = .error fault :=
  ⟨_, (decode_of_broken (by rw [delivery_of_magic hmagic, hfault]) inHand).1⟩

theorem decodeBytes_fails_of_not_contentOf (h : ∀ content, ¬ ContentOf bytes content) :
    ∃ fault, decodeBytes bytes = .error fault := by
  have hmagic : Gzip.magic <+: bytes := by
    by_contra hplain
    exact h bytes (.plain hplain)
  cases hfault : (Gzip.deliver bytes).fault with
  | none =>
    obtain ⟨content, hholds⟩ := Gzip.exists_holds_of_deliver hfault
    exact absurd (.compressed hmagic hholds) (h content)
  | some fault => exact decodeBytes_fails_of_fault hmagic hfault

theorem onlyBlanks_of_decodeBytes (h : decodeBytes bytes = .ok []) : OnlyBlanks bytes := by
  by_cases hcontent : ∃ content, ContentOf bytes content
  · obtain ⟨content, hcontent⟩ := hcontent
    refine ⟨content, hcontent, readDocuments_eq_nil_iff.1 ?_⟩
    rw [decodeBytes_of_contentOf hcontent] at h
    cases hread : readDocuments true content with
    | ok documents =>
      rw [hread] at h
      exact congrArg _ (Except.ok.inj h)
    | error fault =>
      rw [hread] at h
      cases h
  · obtain ⟨fault, hfault⟩ := decodeBytes_fails_of_not_contentOf (not_exists.1 hcontent)
    cases hfault.symm.trans h

theorem decodeBytes_of_onlyBlanks (h : OnlyBlanks bytes) : decodeBytes bytes = .ok [] := by
  obtain ⟨content, hcontent, hblank⟩ := h
  rw [decodeBytes_of_contentOf hcontent, readDocuments_eq_nil_iff.2 hblank]
  rfl

/-- Decoding gives no documents exactly if there is content and it consists of blanks. All other
input has a document at least, or decoding it fails. -/
theorem decodeBytes_eq_nil_iff (bytes : List UInt8) :
    (decodeBytes bytes = .ok [] ↔ OnlyBlanks bytes) ∧
      (¬ OnlyBlanks bytes → (∃ document more, decodeBytes bytes = .ok (document :: more)) ∨
        ∃ fault, decodeBytes bytes = .error fault) := by
  refine ⟨⟨onlyBlanks_of_decodeBytes, decodeBytes_of_onlyBlanks⟩, fun hnot => ?_⟩
  cases hdecode : decodeBytes bytes with
  | error fault => exact .inr ⟨fault, rfl⟩
  | ok documents =>
    cases documents with
    | nil => exact absurd (onlyBlanks_of_decodeBytes hdecode) hnot
    | cons document more => exact .inl ⟨document, more, rfl⟩

/-- A line feed and a vertical tab, compressed. -/
def compressedBlanks : List UInt8 :=
  [0x1F, 0x8B, 0x08, 0x00, 0x00, 0x00, 0x00, 0x00, 0x02, 0x03, 0xE3, 0xE2, 0x06, 0x00, 0xFD, 0x23,
    0xE4, 0x2C, 0x02, 0x00, 0x00, 0x00]

theorem holds_compressedBlanks : ∃ content, Gzip.Holds compressedBlanks content ∧
    ∀ b ∈ content, b ∈ blankBytes :=
  ⟨_, .member rfl (by decide +kernel) (show Gzip.checkTrailer _ _ = .ok [] by decide +kernel) .nil,
    by decide +kernel⟩

/-- Without the last byte the trailer is not there. -/
theorem not_holds_dropLast (content : List UInt8) :
    ¬ Gzip.Holds compressedBlanks.dropLast content := by
  rw [Gzip.holds_iff_of_header rfl]
  rintro ⟨-, rest, -, htrailer, -⟩
  have hfault : Gzip.checkTrailer (Deflate.inflate (compressedBlanks.dropLast.drop 10)).output
      (Deflate.inflate (compressedBlanks.dropLast.drop 10)).rest = .error .endedEarly := by
    decide +kernel
  cases hfault.symm.trans htrailer

/-- Compressed blanks are empty input, and without their last byte they are broken input. -/
theorem decodeBytes_eq_nil_iff_compressedBlanks :
    OnlyBlanks compressedBlanks ∧ decodeBytes compressedBlanks = .ok [] ∧
      ¬ OnlyBlanks compressedBlanks.dropLast ∧
      ∃ fault, decodeBytes compressedBlanks.dropLast = .error fault := by
  obtain ⟨content, hholds, hblank⟩ := holds_compressedBlanks
  have honly : OnlyBlanks compressedBlanks := ⟨content, .compressed (by decide) hholds, hblank⟩
  have hcut : ∀ content, ¬ ContentOf compressedBlanks.dropLast content := by
    rintro content (hplain | ⟨-, hholds⟩)
    · exact hplain (by decide)
    · exact not_holds_dropLast content hholds
  refine ⟨honly, (decodeBytes_eq_nil_iff _).1.2 honly, ?_, decodeBytes_fails_of_not_contentOf hcut⟩
  rintro ⟨content, hcontent, -⟩
  exact hcut content hcontent

end Document

end JsonShape
