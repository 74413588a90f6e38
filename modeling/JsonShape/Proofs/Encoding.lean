import JsonShape.Text.CharClass
import JsonShape.Text.Utf8
import Mathlib.Data.List.Basic

/-!
# Bytes of a text

A character of ASCII is one byte, and every byte of another character lies beyond ASCII. So the
bytes of a text tell whether it is ASCII, and such a text, with line feeds at its line ends, is the
same after it has been encoded and read.
-/

namespace JsonShape

namespace Utf8

theorem toNat_toUInt8 {n : Nat} (h : n < 0x100) : n.toUInt8.toNat = n := by
  rw [Nat.toUInt8, UInt8.toNat_ofNat']
  exact Nat.mod_eq_of_lt h

theorem encodeCode_of_ascii {n : Nat} (h : n < 0x80) : encodeCode n = [n.toUInt8] :=
  if_pos h

/-- The bytes of a character beyond ASCII are beyond ASCII, and the first one is beyond those that
go on with a character. -/
theorem encodeCode_of_not_ascii {c : Char} (h : ¬ c.toNat < 0x80) :
    ∃ b bs, encodeCode c.toNat = b :: bs ∧ 0xC0 ≤ b.toNat ∧ ∀ d ∈ bs, 0x80 ≤ d.toNat := by
  have hmax : c.toNat < 0x110000 := c.valid.elim (fun h => Nat.lt_trans h (by decide)) And.right
  have htail : ∀ k, 0x80 ≤ (0x80 + k % 0x40).toUInt8.toNat := by
    intro k
    rw [toNat_toUInt8 (by omega)]
    omega
  unfold encodeCode
  rw [if_neg h]
  split_ifs
  · refine ⟨_, _, rfl, by rw [toNat_toUInt8 (by omega)]; omega, ?_⟩
    exact List.forall_mem_singleton.2 (htail _)
  · refine ⟨_, _, rfl, by rw [toNat_toUInt8 (by omega)]; omega, ?_⟩
    exact List.forall_mem_cons.2 ⟨htail _, List.forall_mem_singleton.2 (htail _)⟩
  · refine ⟨_, _, rfl, by rw [toNat_toUInt8 (by omega)]; omega, ?_⟩
    exact List.forall_mem_cons.2 ⟨htail _,
      List.forall_mem_cons.2 ⟨htail _, List.forall_mem_singleton.2 (htail _)⟩⟩

/-- A byte below `0x80` is a character of the text. -/
theorem mem_of_mem_encode {s : String} {b : UInt8} (hb : b ∈ encode s) (hascii : b.toNat < 0x80) :
    Char.ofNat b.toNat ∈ s.toList := by
  obtain ⟨c, hc, hmem⟩ := List.mem_flatMap.1 hb
  by_cases h : c.toNat < 0x80
  · rw [encodeCode_of_ascii h, List.mem_singleton] at hmem
    rw [hmem, toNat_toUInt8 (by omega), Char.ofNat_toNat]
    exact hc
  · obtain ⟨first, rest, hcode, hfirst, hrest⟩ := encodeCode_of_not_ascii h
    rw [hcode] at hmem
    rcases List.mem_cons.1 hmem with rfl | hmem
    · omega
    · have := hrest b hmem
      omega

/-- A text is ASCII if its bytes are. -/
theorem ascii_of_encode {s : String} (h : ∀ b ∈ encode s, b.toNat < 0x80) :
    ∀ c ∈ s.toList, c.toNat < 0x80 := by
  intro c hc
  by_contra hlarge
  obtain ⟨first, rest, hcode, hfirst, -⟩ := encodeCode_of_not_ascii hlarge
  have := h first (List.mem_flatMap.2 ⟨c, hc, by rw [hcode]; exact List.mem_cons_self ..⟩)
  omega

/-- The first byte of a text is none that goes on with a character. -/
theorem head_encode {cs : List Char} {b : UInt8}
    (h : (cs.flatMap fun c => encodeCode c.toNat).head? = some b) :
    b.toNat < 0x80 ∨ 0xC0 ≤ b.toNat := by
  cases cs with
  | nil => cases h
  | cons c cs =>
    rw [List.flatMap_cons] at h
    by_cases hc : c.toNat < 0x80
    · rw [encodeCode_of_ascii hc] at h
      obtain rfl := Option.some.inj h
      rw [toNat_toUInt8 (by omega)]
      exact .inl hc
    · obtain ⟨first, rest, hcode, hfirst, -⟩ := encodeCode_of_not_ascii hc
      rw [hcode] at h
      obtain rfl := Option.some.inj h
      exact .inr hfirst

theorem decodeAfter_ascii (done : List Char) {cs : List Char} (h : ∀ c ∈ cs, c.toNat < 0x80) :
    decodeAfter done (cs.flatMap fun c => encodeCode c.toNat) = .ok (done.reverse ++ cs) := by
  induction cs generalizing done with
  | nil => simp [decodeAfter]
  | cons c cs ih =>
    obtain ⟨hc, hcs⟩ := List.forall_mem_cons.1 h
    have hbyte : c.toNat.toUInt8.toNat = c.toNat := toNat_toUInt8 (by omega)
    have hlt : c.toNat.toUInt8 < 0x80 := UInt8.lt_iff_toNat_lt.2 (by rw [hbyte]; exact hc)
    rw [List.flatMap_cons, encodeCode_of_ascii hc, List.singleton_append, decodeAfter.eq_def]
    simp only [hlt, if_true, hbyte, Char.ofNat_toNat, ih _ hcs]
    simp

/-- A text of ASCII characters is read back from its bytes. -/
theorem decode_encode_of_ascii {s : String} (h : ∀ c ∈ s.toList, c.toNat < 0x80) :
    decode (encode s) = .ok s := by
  rw [decode, encode, decodeAfter_ascii [] h]
  simp [Except.map]

end Utf8

theorem Text.lineFeeds_of_not_mem {cs : List Char} (h : '\r' ∉ cs) : lineFeeds cs = cs := by
  fun_induction lineFeeds cs with
  | case1 => rfl
  | case2 => simp at h
  | case3 => simp at h
  | case4 c rest _ _ ih => rw [ih fun hmem => h (List.mem_cons_of_mem c hmem)]

end JsonShape
