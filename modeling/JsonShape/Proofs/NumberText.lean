import JsonShape.Proofs.DecodeReport
import JsonShape.Proofs.Encoding
import JsonShape.Proofs.Principal

/-!
# Number texts and number documents

A text that spells a number counts as what the decoder reads from it. The two sides go different
ways : one takes the whole text, the other a stream of bytes, which may be compressed, in which
blanks are passed over, and from which one document after another is taken.

What the two sides share is the grammar of literals. A text that it spells is a document
(`Document.decodeBytes_of_spells`), and if the only document of a text without blanks is a number,
the grammar spells the text (`Document.exists_spells_of_decodeBytes`).
-/

namespace JsonShape

/-- Inference finds the shape in every case, and leaves the session as it is. -/
def Value.HasShape (v : Value) (x : Shape) : Prop :=
  ∀ (o : Options) (s : Session), (Session.infer o v).run s = (.ok x, s)

/-! ## Bytes of a text -/

/-- The bytes of a text never look compressed. -/
theorem Utf8.take_encode_ne_magic (s : String) : (encode s).take 2 ≠ Gzip.magic := by
  intro h
  obtain ⟨rest, hbytes⟩ : ∃ rest, encode s = 0x1F :: 0x8B :: rest :=
    ⟨(encode s).drop 2, by rw [← List.take_append_drop 2 (encode s), h]; rfl⟩
  unfold encode at hbytes
  cases hs : s.toList with
  | nil =>
    rw [hs] at hbytes
    cases hbytes
  | cons c cs =>
    rw [hs, List.flatMap_cons] at hbytes
    by_cases hc : c.toNat < 0x80
    · -- The second byte starts the second character.
      rw [encodeCode_of_ascii hc, List.singleton_append] at hbytes
      have hhead : (cs.flatMap fun c => encodeCode c.toNat).head? = some 0x8B := by
        rw [(List.cons.inj hbytes).2]
        rfl
      exact absurd (head_encode hhead) (by decide)
    · obtain ⟨first, tail, hcode, hfirst, -⟩ := encodeCode_of_not_ascii hc
      rw [hcode] at hbytes
      rw [(List.cons.inj hbytes).1] at hfirst
      exact absurd hfirst (by decide)

theorem Text.isJsonBlank_eq_false {c : Char} (h : 0x20 < c.toNat) : isJsonBlank c = false := by
  rw [isJsonBlank, Bool.or_eq_false_iff, Bool.and_eq_false_iff, beq_eq_false_iff_ne,
    decide_eq_false_iff_not, decide_eq_false_iff_not]
  omega

namespace Document

theorem byteChars_encode {s : String} (h : ∀ c ∈ s.toList, c.toNat < 0x80) :
    byteChars (Utf8.encode s) = s.toList := by
  unfold byteChars Utf8.encode
  generalize s.toList = cs at h
  induction cs with
  | nil => rfl
  | cons c cs ih =>
    obtain ⟨hc, hcs⟩ := List.forall_mem_cons.1 h
    rw [List.flatMap_cons, Utf8.encodeCode_of_ascii hc, List.map_append, ih hcs, List.map_cons,
      List.map_nil, Utf8.toNat_toUInt8 (by omega), Char.ofNat_toNat, List.singleton_append]

/-- If the bytes of a text are ASCII, they are its characters. -/
theorem byteChars_encode_of_forall {s : String}
    (h : ∀ c ∈ byteChars (Utf8.encode s), c.toNat < 0x80) :
    byteChars (Utf8.encode s) = s.toList := by
  refine byteChars_encode (Utf8.ascii_of_encode fun b hb => ?_)
  rw [← toNat_ofNat_byte]
  exact h _ (List.mem_map_of_mem hb)

/-- A text without blanks has none in its bytes. -/
theorem isJsonBlank_of_mem_byteChars {s : String}
    (h : ∀ c ∈ s.toList, Text.isJsonBlank c = false) :
    ∀ c ∈ byteChars (Utf8.encode s), Text.isJsonBlank c = false := by
  intro c hc
  obtain ⟨b, hb, rfl⟩ := List.mem_map.1 hc
  by_cases hascii : b.toNat < 0x80
  · exact h _ (Utf8.mem_of_mem_encode hb hascii)
  · exact Text.isJsonBlank_eq_false (by rw [toNat_ofNat_byte]; omega)

/-- Bytes of a text are read as they are. -/
theorem decodeBytes_encode_eq_ok {s : String} {documents : List Value} :
    decodeBytes (Utf8.encode s) = .ok documents ↔
      (dialect true).stream (byteChars (Utf8.encode s)) = .ok documents := by
  have hplain : ¬ Gzip.magic <+: Utf8.encode s :=
    fun h => Utf8.take_encode_ne_magic s (List.prefix_iff_eq_take.1 h).symm
  rw [decodeBytes_of_plain hplain, readDocuments]
  cases (dialect true).stream (byteChars (Utf8.encode s)) with
  | ok found => simp [Except.mapError]
  | error fault => simp [Except.mapError]

end Document

/-! ## Documents that are numbers -/

namespace Json.Dialect

variable {ε α : Type} {d : Dialect ε α} {cs : List Char}

theorem stream_of_skip_eq_nil (hd : d.Consuming) (h : d.skip cs = []) : d.stream cs = .ok [] := by
  rw [stream_eq hd, h]

theorem stream_of_tree (hd : d.Consuming) (hne : d.skip cs ≠ []) {t : α} {ts : List α}
    {rest : List Char} (htree : d.tree (d.skip cs) = .ok (t, rest))
    (hrest : d.stream rest = .ok ts) : d.stream cs = .ok (t :: ts) := by
  obtain ⟨c, inner, hskip⟩ := List.exists_cons_of_ne_nil hne
  rw [hskip] at htree
  rw [stream_eq hd, hskip]
  simp only [htree, hrest]

/-- A stream is over after its blanks, or it goes on with a tree. -/
theorem stream_cases (hd : d.Consuming) {ts : List α} (h : d.stream cs = .ok ts) :
    (ts = [] ∧ d.skip cs = []) ∨
    ∃ t ts' rest, ts = t :: ts' ∧ d.tree (d.skip cs) = .ok (t, rest) ∧ d.stream rest = .ok ts' := by
  rw [stream_eq hd] at h
  cases hskip : d.skip cs with
  | nil =>
    rw [hskip] at h
    exact .inl ⟨(Except.ok.inj h).symm, rfl⟩
  | cons c inner =>
    rw [hskip] at h
    cases htree : d.tree (c :: inner) with
    | error fault =>
      simp only [htree] at h
      cases h
    | ok found =>
      simp only [htree] at h
      cases hrest : d.stream found.2 with
      | error fault =>
        rw [hrest] at h
        cases h
      | ok ts' =>
        rw [hrest] at h
        exact .inr ⟨found.1, ts', found.2, (Except.ok.inj h).symm, rfl, hrest⟩

theorem skip_eq_self {c : Char} {inner : List Char} (h : d.isBlank c = false) :
    d.skip (c :: inner) = c :: inner := by
  rw [skip, List.dropWhile_cons_of_neg (by simp [h])]

theorem skip_of_forall (h : ∀ c ∈ cs, d.isBlank c = false) : d.skip cs = cs := by
  cases cs with
  | nil => rfl
  | cons c inner => exact skip_eq_self (h c (List.mem_cons_self ..))

end Json.Dialect

namespace Document

/-- A word stands for no number. -/
theorem not_isNumber_of_mem_words {w : String × Value} (hw : w ∈ words) : ¬ w.2.IsNumber := by
  simp only [words, List.mem_cons, List.not_mem_nil, or_false] at hw
  obtain rfl | rfl | rfl := hw
  all_goals exact id

/-- A document that is a number is read from a literal. -/
theorem exists_scan_of_tree {cs rest : List Char} {v : Value} (hv : v.IsNumber)
    (h : (dialect true).tree cs = .ok (v, rest)) :
    ∃ l, NumberLiteral.scan ((dialect true).skip cs) = some (l, rest) ∧ ofLiteral l = .ok v := by
  obtain ⟨s, rfl⟩ | ⟨items, rfl⟩ | ⟨entries, rfl⟩ | hatom :=
    Json.Dialect.tree_cases (consuming_dialect true) h
  · exact hv.elim
  · exact hv.elim
  · exact hv.elim
  change readAtom true ((dialect true).skip cs) = .ok (v, rest) at hatom
  unfold readAtom at hatom
  split at hatom
  next hword =>
    cases hatom
    obtain ⟨w, hw, rfl, -⟩ := exists_word_of_readWord hword
    exact absurd hv (not_isNumber_of_mem_words hw)
  next =>
    split at hatom
    next => cases hatom
    next l after hscan =>
      rw [Bool.not_true, Bool.and_false, if_neg Bool.false_ne_true] at hatom
      split at hatom
      next => cases hatom
      next hvalue =>
        cases hatom
        exact ⟨l, hscan, hvalue⟩

/-- A literal at the start is read as a document. -/
theorem tree_of_scan {cs rest : List Char} {l : NumberLiteral} {v : Value}
    (h : NumberLiteral.scan cs = some (l, rest)) (hv : ofLiteral l = .ok v) :
    (dialect true).skip cs = cs ∧ (dialect true).tree cs = .ok (v, rest) := by
  obtain ⟨c, inner, rfl, hc⟩ := NumberLiteral.head_of_scan h
  have hrange : c.toNat = 0x2D ∨ (0x30 ≤ c.toNat ∧ c.toNat ≤ 0x39) :=
    hc.imp (fun hc => by rw [hc]; rfl) NumberLiteral.toNat_of_isAsciiDigit
  have hblank : (dialect true).isBlank c = false := Text.isJsonBlank_eq_false (by omega)
  have hskip : (dialect true).skip (c :: inner) = c :: inner := Json.Dialect.skip_eq_self hblank
  refine ⟨hskip, ?_⟩
  rw [Json.Dialect.tree_eq_atom (consuming_dialect true), hskip]
  · change readAtom true (c :: inner) = .ok (v, rest)
    rw [readAtom, readWord_eq_none_of_scan h, h]
    simp only [hv, Bool.not_true, Bool.and_false, Bool.false_eq_true, if_false]
  · rw [hskip]
    intro d hd hmem
    obtain rfl := Option.some.inj hd
    simp only [List.mem_cons, List.not_mem_nil, or_false] at hmem
    obtain rfl | rfl | rfl := hmem
    all_goals exact absurd hrange (by decide)

/-- The value that a literal stands for is a number of the literal's shape. -/
theorem number_of_ofLiteral {l : NumberLiteral} {v : Value} (h : ofLiteral l = .ok v) :
    v.IsNumber ∧ v.HasShape l.shape := by
  unfold ofLiteral at h
  unfold NumberLiteral.shape
  split_ifs at h with hint hrange
  · cases h
    rw [if_pos hint]
    exact ⟨trivial, fun o s => by rw [Session.infer]; rfl⟩
  · cases h
    rw [if_neg hint]
    exact ⟨trivial, fun o s => by rw [Session.infer]; rfl⟩

/-- The exponent of the number that the text spells, if it spells one, lies within the bounds of a
decimal. -/
def ExponentInRange (s : String) : Prop :=
  ∀ l : NumberLiteral, l.Spells s.toList → l.isInteger = false → l.toDecimal.inRange = true

theorem ofLiteral_of_inRange {s : String} (hrange : ExponentInRange s) {l : NumberLiteral}
    (hl : l.Spells s.toList) : ∃ v, ofLiteral l = .ok v := by
  unfold ofLiteral
  cases hint : l.isInteger with
  | true => exact ⟨_, rfl⟩
  | false => exact ⟨_, if_pos (hrange l hl hint)⟩

/-- A text that spells a number is the document of that number. -/
theorem decodeBytes_of_spells {s : String} {l : NumberLiteral} (hl : l.Spells s.toList) {v : Value}
    (hv : ofLiteral l = .ok v) : decodeBytes (Utf8.encode s) = .ok [v] := by
  obtain ⟨hskip, htree⟩ := tree_of_scan (NumberLiteral.scan_of_spells hl) hv
  rw [decodeBytes_encode_eq_ok, byteChars_encode hl.ascii]
  refine Json.Dialect.stream_of_tree (consuming_dialect true) ?_ (by rw [hskip, htree])
    (Json.Dialect.stream_of_skip_eq_nil (consuming_dialect true) rfl)
  rw [hskip]
  obtain ⟨c, inner, hcs, -⟩ := NumberLiteral.head_of_scan (NumberLiteral.scan_of_spells hl)
  rw [hcs]
  exact List.cons_ne_nil _ _

/-- If the only document of a text without blanks is a number, the text spells it. -/
theorem exists_spells_of_decodeBytes {s : String}
    (hblank : ∀ c ∈ s.toList, Text.isJsonBlank c = false) {v : Value} (hv : v.IsNumber)
    (h : decodeBytes (Utf8.encode s) = .ok [v]) :
    ∃ l : NumberLiteral, l.Spells s.toList ∧ ofLiteral l = .ok v := by
  rw [decodeBytes_encode_eq_ok] at h
  have hblanks := isJsonBlank_of_mem_byteChars hblank
  have hskip : (dialect true).skip (byteChars (Utf8.encode s)) = byteChars (Utf8.encode s) :=
    Json.Dialect.skip_of_forall hblanks
  obtain ⟨hnil, -⟩ | ⟨t, ts, rest, hts, htree, hrest⟩ :=
    Json.Dialect.stream_cases (consuming_dialect true) h
  · cases hnil
  obtain ⟨rfl, rfl⟩ := List.cons.inj hts
  rw [hskip] at htree
  obtain ⟨l, hscan, hl⟩ := exists_scan_of_tree hv htree
  rw [hskip] at hscan
  obtain ⟨p, hp, hcs⟩ := NumberLiteral.spells_of_scan hscan
  -- What follows the literal would be blanks.
  have hend : rest = [] := by
    have hmem : ∀ c ∈ rest, (dialect true).isBlank c = false :=
      fun c hc => hblanks c (hcs ▸ List.mem_append_right p hc)
    obtain ⟨-, hend⟩ | ⟨_, _, _, hts', -⟩ :=
      Json.Dialect.stream_cases (consuming_dialect true) hrest
    · rwa [Json.Dialect.skip_of_forall hmem] at hend
    · cases hts'
  rw [hend, List.append_nil] at hcs
  rw [← hcs] at hp
  rw [byteChars_encode_of_forall hp.ascii] at hp
  exact ⟨l, hp, hl⟩

/-- Texts count as the numbers that the decoder reads from them. If a text has the shape of a number
and its exponent is in range, its only document is a number of that shape. If the only document of a
text without blanks is a number, the text has the shape of that number, unless it is an integer with
too many digits. -/
theorem numberText_read_alike (s : String) :
    (∀ x, numberTextShape s = .ok (some x) → ExponentInRange s →
      ∃ n, decodeBytes (Utf8.encode s) = .ok [n] ∧ n.IsNumber ∧ n.HasShape x) ∧
    ∀ n, (∀ c ∈ s.toList, Text.isJsonBlank c = false) → ¬ IsLongInteger s →
      decodeBytes (Utf8.encode s) = .ok [n] → n.IsNumber →
      ∃ x, numberTextShape s = .ok (some x) ∧ n.HasShape x := by
  refine ⟨fun x hx hrange => ?_, fun n hblank hlong hn hnumber => ?_⟩
  · obtain ⟨hnone, -⟩ | ⟨l, hl, ⟨-, herror⟩ | ⟨-, hok⟩⟩ := numberTextShape_cases s
    · cases hnone.symm.trans hx
    · cases herror.symm.trans hx
    · obtain rfl := Option.some.inj (Except.ok.inj (hok.symm.trans hx))
      obtain ⟨v, hv⟩ := ofLiteral_of_inRange hrange hl
      exact ⟨v, decodeBytes_of_spells hl hv, number_of_ofLiteral hv⟩
  · obtain ⟨l, hl, hv⟩ := exists_spells_of_decodeBytes hblank hnumber hn
    exact ⟨l.shape, numberTextShape_of_not_isLong hl fun h => hlong ⟨l, hl, h⟩,
      (number_of_ofLiteral hv).2⟩

/-- A number with a sign, a fraction and a signed exponent. -/
theorem numberText_read_alike_signedExponent :
    numberTextShape "-0.50E+3" = .ok (some .float64) ∧ ExponentInRange "-0.50E+3" ∧
      (∀ c ∈ "-0.50E+3".toList, Text.isJsonBlank c = false) ∧ ¬ IsLongInteger "-0.50E+3" ∧
      ∃ n x, decodeBytes (Utf8.encode "-0.50E+3") = .ok [n] ∧ n.IsNumber ∧ n.HasShape .float64 ∧
        numberTextShape "-0.50E+3" = .ok (some x) ∧ n.HasShape x := by
  have hliteral : NumberLiteral.ofText? "-0.50E+3" =
      some ⟨true, ['0'], some ['5', '0'], some (false, ['3'])⟩ := rfl
  have hshape : numberTextShape "-0.50E+3" = .ok (some .float64) := by
    rw [numberTextShape, hliteral]
    rfl
  have hrange : ExponentInRange "-0.50E+3" := by
    intro l hl _
    rw [← NumberLiteral.ofText?_eq_some_iff, hliteral] at hl
    obtain rfl := Option.some.inj hl
    decide
  have hblank : ∀ c ∈ "-0.50E+3".toList, Text.isJsonBlank c = false := by
    have hall : ("-0.50E+3".toList.all fun c => Text.isJsonBlank c == false) = true := rfl
    exact fun c hc => eq_of_beq (List.all_eq_true.1 hall c hc)
  have hlong : ¬ IsLongInteger "-0.50E+3" := by
    rw [← numberTextShape_error_iff, hshape]
    rintro ⟨_, ⟨⟩⟩
  obtain ⟨n, hn, hnumber, hfloat⟩ := (numberText_read_alike _).1 _ hshape hrange
  obtain ⟨x, hx, hsame⟩ := (numberText_read_alike _).2 n hblank hlong hn hnumber
  exact ⟨hshape, hrange, hblank, hlong, n, x, hn, hnumber, hfloat, hx, hsame⟩

end Document

end JsonShape
