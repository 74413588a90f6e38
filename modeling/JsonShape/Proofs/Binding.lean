import Mathlib.Data.List.TakeWhile
import JsonShape.Proofs.FirstFault

/-!
# Fields bound to keys

A Go field is bound to a JSON key if its name is an exported identifier of the language
(`Go.ExportedIdentifier`) and its tag gives the key as a name that the JSON package honours
(`Go.Honoured`). Both are stricter than the checks made before a field is written, which admit
marks in a name and every character with a digit value in a key.

The tag always reads back as the key, and a name begins with a capital letter and is no keyword.
A name falls short exactly where a letter that begins a word of the key has an upper-case form with
a mark in it, and a tag exactly where the key has a digit that is no decimal one
(`go_fields_bound_iff`).
-/

namespace JsonShape

namespace Text

/-! ## Character classes -/

/-- Code points of general category Nd. -/
def decimalDigitRanges : List (Nat × Nat) := [
  (0x30, 0x39), (0x660, 0x669), (0x6F0, 0x6F9), (0x7C0, 0x7C9), (0x966, 0x96F), (0x9E6, 0x9EF),
  (0xA66, 0xA6F), (0xAE6, 0xAEF), (0xB66, 0xB6F), (0xBE6, 0xBEF), (0xC66, 0xC6F), (0xCE6, 0xCEF),
  (0xD66, 0xD6F), (0xDE6, 0xDEF), (0xE50, 0xE59), (0xED0, 0xED9), (0xF20, 0xF29), (0x1040, 0x1049),
  (0x1090, 0x1099), (0x17E0, 0x17E9), (0x1810, 0x1819), (0x1946, 0x194F), (0x19D0, 0x19D9),
  (0x1A80, 0x1A89), (0x1A90, 0x1A99), (0x1B50, 0x1B59), (0x1BB0, 0x1BB9), (0x1C40, 0x1C49),
  (0x1C50, 0x1C59), (0xA620, 0xA629), (0xA8D0, 0xA8D9), (0xA900, 0xA909), (0xA9D0, 0xA9D9),
  (0xA9F0, 0xA9F9), (0xAA50, 0xAA59), (0xABF0, 0xABF9), (0xFF10, 0xFF19), (0x104A0, 0x104A9),
  (0x10D30, 0x10D39), (0x11066, 0x1106F), (0x110F0, 0x110F9), (0x11136, 0x1113F),
  (0x111D0, 0x111D9), (0x112F0, 0x112F9), (0x11450, 0x11459), (0x114D0, 0x114D9),
  (0x11650, 0x11659), (0x116C0, 0x116C9), (0x11730, 0x11739), (0x118E0, 0x118E9),
  (0x11950, 0x11959), (0x11C50, 0x11C59), (0x11D50, 0x11D59), (0x11DA0, 0x11DA9),
  (0x16A60, 0x16A69), (0x16AC0, 0x16AC9), (0x16B50, 0x16B59), (0x1D7CE, 0x1D7FF),
  (0x1E140, 0x1E149), (0x1E2F0, 0x1E2F9), (0x1E950, 0x1E959), (0x1FBF0, 0x1FBF9)]

/-- The character is a decimal digit. -/
def isDecimalDigit (c : Char) : Bool :=
  inRanges decimalDigitRanges c.toNat

/-- The character is a capital letter. -/
def isCapital (c : Char) : Bool :=
  inRuns capitalRuns c.toNat

/-- One of the ranges holds the code point. -/
def Covers (ranges : List (Nat × Nat)) (n : Nat) : Prop :=
  ∃ r ∈ ranges, r.1 ≤ n ∧ n ≤ r.2

/-- The ranges begin one after the other. -/
def AscendingRanges (ranges : List (Nat × Nat)) : Prop :=
  ranges.Pairwise fun r s => r.1 < s.1

/-- No range of one list meets a range of the other, in one pass over both, which ascend. -/
def apart : List (Nat × Nat) → List (Nat × Nat) → Bool
  | [], _ => true
  | r :: rs, ss =>
    match ss.dropWhile fun s => s.2 < r.1 with
    | [] => true
    | s :: later => r.2 < s.1 && apart rs (s :: later)

theorem ascendingRanges_of_isChain {ranges : List (Nat × Nat)}
    (h : ranges.IsChain fun r s => r.1 < s.1) : AscendingRanges ranges := by
  have htrans : IsTrans (Nat × Nat) fun r s => r.1 < s.1 := ⟨fun _ _ _ => Nat.lt_trans⟩
  exact List.isChain_iff_pairwise.1 h

theorem covers_of_inRanges {ranges : List (Nat × Nat)} {n : Nat} (h : inRanges ranges n = true) :
    Covers ranges n := by
  induction ranges with
  | nil => cases h
  | cons r rest ih =>
    rw [inRanges] at h
    split_ifs at h with hfirst
    rcases Bool.or_eq_true_iff.1 h with hlast | hrest
    · exact ⟨r, List.mem_cons_self, Nat.le_of_not_lt hfirst, of_decide_eq_true hlast⟩
    · obtain ⟨s, hs, hn⟩ := ih hrest
      exact ⟨s, List.mem_cons_of_mem r hs, hn⟩

theorem not_covers_of_apart {rs ss : List (Nat × Nat)} (hrs : AscendingRanges rs)
    (hss : AscendingRanges ss) (h : apart rs ss = true) {n : Nat} (hn : Covers rs n) :
    ¬Covers ss n := by
  induction rs generalizing ss with
  | nil =>
    obtain ⟨r, hr, -⟩ := hn
    cases hr
  | cons r rs ih =>
    obtain ⟨hbefore, hrs⟩ := List.pairwise_cons.1 hrs
    have hfirst : r.1 ≤ n := by
      obtain ⟨t, ht, htn, -⟩ := hn
      rcases List.mem_cons.1 ht with rfl | ht
      · exact htn
      · exact (hbefore t ht).le.trans htn
    rintro ⟨s, hs, hsn, hns⟩
    -- The ranges that are passed over end before `r` begins, so `n` lies in none of them.
    rw [← List.takeWhile_append_dropWhile (p := fun s => decide (s.2 < r.1)) (l := ss)] at hs hss
    obtain ⟨-, hkept, -⟩ := List.pairwise_append.1 hss
    have hmem : s ∈ ss.dropWhile fun s => s.2 < r.1 := by
      refine (List.mem_append.1 hs).resolve_left fun hpassed => ?_
      have hend := List.mem_takeWhile_imp hpassed
      rw [decide_eq_true_eq] at hend
      omega
    rw [apart] at h
    split at h
    · rename_i hnil
      rw [hnil] at hmem
      cases hmem
    · rename_i next later hnext
      rw [hnext] at hmem hkept
      obtain ⟨hlast, hapart⟩ := Bool.and_eq_true_iff.1 h
      obtain ⟨t, ht, htn, hnt⟩ := hn
      rcases List.mem_cons.1 ht with rfl | ht
      · have hstart : next.1 ≤ s.1 := by
          rcases List.mem_cons.1 hmem with rfl | hlater
          · exact Nat.le_refl _
          · exact ((List.pairwise_cons.1 hkept).1 s hlater).le
        have hlast := of_decide_eq_true hlast
        omega
      · exact ih hrs hkept hapart ⟨t, ht, htn, hnt⟩ ⟨s, hmem, hsn, hns⟩

/-- Classes without letters, of characters that the checks of a name take for its first one or for
a capital, or that the language takes for a digit. The first has the underscore. -/
def strayClasses : List (List (Nat × Nat)) :=
  [startAdditions, upperCaseSymbols, decimalDigitRanges]

/-- The code point is in a class without letters. -/
def Stray (n : Nat) : Prop :=
  ∃ ranges ∈ strayClasses, Covers ranges n

/-- The classes ascend, letters are apart from the others, and so are the upper-case forms of
letters : a run of forms has none in a class without letters, or no letter has a form in it. -/
theorem classes_apart :
    (∀ ranges ∈ letterRanges :: digitRanges :: strayClasses,
      ranges.IsChain fun r s => r.1 < s.1) ∧
    (digitRanges :: strayClasses).all (apart letterRanges) = true ∧
    (capitalForms.all fun run =>
      strayClasses.all (apart [(run.2.2.2, run.2.2.2 + (run.2.1 - run.1))]) ||
        apart [(run.1, run.2.1)] letterRanges) = true ∧
    (capitalSequences.all fun entry =>
      entry.2.all fun n => strayClasses.all (apart [(n, n)])) = true := by
  decide +kernel

theorem ascendingRanges_of_mem {ranges : List (Nat × Nat)}
    (h : ranges ∈ letterRanges :: digitRanges :: strayClasses) : AscendingRanges ranges :=
  ascendingRanges_of_isChain (classes_apart.1 ranges h)

theorem ascendingRanges_letterRanges : AscendingRanges letterRanges :=
  ascendingRanges_of_mem List.mem_cons_self

theorem ascendingRanges_of_mem_strayClasses {ranges : List (Nat × Nat)}
    (h : ranges ∈ strayClasses) : AscendingRanges ranges :=
  ascendingRanges_of_mem (List.mem_cons_of_mem _ (List.mem_cons_of_mem _ h))

theorem not_stray_of_apart {rs : List (Nat × Nat)} (hrs : AscendingRanges rs)
    (h : strayClasses.all (apart rs) = true) {n : Nat} (hn : Covers rs n) : ¬Stray n := by
  rintro ⟨ranges, hranges, hcovers⟩
  exact not_covers_of_apart hrs (ascendingRanges_of_mem_strayClasses hranges)
    (List.all_eq_true.1 h ranges hranges) hn hcovers

theorem not_stray_of_isLetter {c : Char} (h : isLetter c = true) : ¬Stray c.toNat :=
  not_stray_of_apart ascendingRanges_letterRanges (Bool.and_eq_true_iff.1 classes_apart.2.1).2
    (covers_of_inRanges h)

theorem isDigit_eq_false_of_isLetter {c : Char} (h : isLetter c = true) : isDigit c = false := by
  have hdigits : AscendingRanges digitRanges :=
    ascendingRanges_of_mem (List.mem_cons_of_mem _ List.mem_cons_self)
  refine Bool.eq_false_iff.2 fun hdigit => ?_
  exact not_covers_of_apart ascendingRanges_letterRanges hdigits
    (Bool.and_eq_true_iff.1 classes_apart.2.1).1 (covers_of_inRanges h) (covers_of_inRanges hdigit)

theorem exists_run_of_formOf {runs : List (Nat × Nat × Nat × Nat)} {n m : Nat}
    (h : formOf runs n = some m) :
    ∃ run ∈ runs, run.1 ≤ n ∧ n ≤ run.2.1 ∧ m = run.2.2.2 + (n - run.1) := by
  induction runs with
  | nil => cases h
  | cons run rest ih =>
    rw [formOf] at h
    split_ifs at h with hfirst hmember
    · have hlast : n ≤ run.2.1 := of_decide_eq_true (Bool.and_eq_true_iff.1 hmember).1
      exact ⟨run, List.mem_cons_self, Nat.le_of_not_lt hfirst, hlast, (Option.some.inj h).symm⟩
    · obtain ⟨other, hother, hform⟩ := ih h
      exact ⟨other, List.mem_cons_of_mem run hother, hform⟩

theorem covers_singleton {a b n : Nat} (ha : a ≤ n) (hb : n ≤ b) : Covers [(a, b)] n :=
  ⟨(a, b), List.mem_singleton_self _, ha, hb⟩

theorem ascendingRanges_singleton (r : Nat × Nat) : AscendingRanges [r] :=
  List.pairwise_singleton _ r

/-- A code point that is no character becomes the first one, which is not stray. -/
theorem not_stray_ofNat {n : Nat} (h : ¬Stray n) : ¬Stray (Char.ofNat n).toNat := by
  have hfirst : ¬Stray 0 :=
    not_stray_of_apart (ascendingRanges_singleton (0, 0)) rfl
      (covers_singleton (Nat.le_refl 0) (Nat.le_refl 0))
  by_cases hvalid : n.isValidChar
  · rw [Char.ofNat, dif_pos hvalid]
    exact h
  · rw [Char.ofNat, dif_neg hvalid]
    exact hfirst

/-- The upper-case form of a letter has no stray character. -/
theorem not_stray_of_mem_upperChar {c d : Char} (hc : isLetter c = true) (hd : d ∈ upperChar c) :
    ¬Stray d.toNat := by
  unfold upperChar at hd
  split at hd
  · rename_i form hform
    obtain ⟨run, hrun, hfirst, hlast, rfl⟩ := exists_run_of_formOf hform
    obtain rfl := List.mem_singleton.1 hd
    have hrun := List.all_eq_true.1 classes_apart.2.2.1 run hrun
    rcases Bool.or_eq_true_iff.1 hrun with hstray | hletters
    · exact not_stray_ofNat (not_stray_of_apart (ascendingRanges_singleton _) hstray
        (covers_singleton (by omega) (by omega)))
    · exact absurd (covers_of_inRanges hc) (not_covers_of_apart (ascendingRanges_singleton _)
        ascendingRanges_letterRanges hletters (covers_singleton hfirst hlast))
  · split at hd
    · rename_i forms hforms
      obtain ⟨n, hn, rfl⟩ := List.mem_map.1 hd
      obtain ⟨before, after, hentries, -⟩ := List.lookup_eq_some_iff.1 hforms
      have hentry : (c.toNat, forms) ∈ capitalSequences := by
        rw [hentries]
        exact List.mem_append_right _ List.mem_cons_self
      have hstray := List.all_eq_true.1 (List.all_eq_true.1 classes_apart.2.2.2 _ hentry) n hn
      exact not_stray_ofNat (not_stray_of_apart (ascendingRanges_singleton _) hstray
        (covers_singleton (Nat.le_refl n) (Nat.le_refl n)))
    · obtain rfl := List.mem_singleton.1 hd
      exact not_stray_of_isLetter hc

end Text

open Text

/-! ## Words of a key -/

/-- The letters that begin a word : those with no letter right before them. A word may begin with
the first character where `wordStart` says so. -/
def wordInitials (wordStart : Bool) : List Char → List Char
  | [] => []
  | c :: rest =>
    if isLetter c then (if wordStart then [c] else []) ++ wordInitials false rest
    else wordInitials true rest

theorem isLetter_of_mem_wordInitials {wordStart : Bool} {cs : List Char} {c : Char}
    (h : c ∈ wordInitials wordStart cs) : isLetter c = true := by
  induction cs generalizing wordStart with
  | nil => cases h
  | cons a rest ih =>
    rw [wordInitials] at h
    split_ifs at h with hletter hstart
    · rcases List.mem_append.1 h with hhead | hrest
      · obtain rfl := List.mem_singleton.1 hhead
        exact hletter
      · exact ih hrest
    · exact ih h
    · exact ih h

theorem mem_camelCase_of_mem_wordInitials {wordStart : Bool} {cs : List Char} {c d : Char}
    (hc : c ∈ wordInitials wordStart cs) (hd : d ∈ upperChar c) : d ∈ camelCase wordStart cs := by
  induction cs generalizing wordStart with
  | nil => cases hc
  | cons a rest ih =>
    rw [wordInitials] at hc
    rw [camelCase]
    split_ifs at hc ⊢ with hletter hstart hdigit
    · rcases List.mem_append.1 hc with hhead | hrest
      · obtain rfl := List.mem_singleton.1 hhead
        exact List.mem_append_left _ hd
      · exact List.mem_append_right _ (ih hrest)
    · exact List.mem_append_right _ (ih hc)
    · exact List.mem_cons_of_mem a (ih hc)
    · exact ih hc

/-- A character of an identifier is a letter or an ASCII digit, or it comes from a letter that
begins a word. -/
theorem mem_camelCase {wordStart : Bool} {cs : List Char} {d : Char}
    (h : d ∈ camelCase wordStart cs) : isLetter d = true ∨ isAsciiDigit d = true ∨
      ∃ c ∈ wordInitials wordStart cs, d ∈ upperChar c := by
  induction cs generalizing wordStart with
  | nil => cases h
  | cons a rest ih =>
    rw [camelCase] at h
    rw [wordInitials]
    split_ifs at h ⊢ with hletter hstart hdigit
    · rcases List.mem_append.1 h with hhead | hrest
      · exact Or.inr (Or.inr ⟨a, List.mem_cons_self, hhead⟩)
      · refine (ih hrest).imp_right (Or.imp_right ?_)
        rintro ⟨c, hc, hform⟩
        exact ⟨c, List.mem_append_right _ hc, hform⟩
    · rcases List.mem_append.1 h with hhead | hrest
      · obtain rfl := List.mem_singleton.1 hhead
        exact Or.inl hletter
      · exact ih hrest
    · rcases List.mem_cons.1 h with rfl | hrest
      · exact Or.inr (Or.inl hdigit)
      · exact ih hrest
    · exact ih h

theorem toList_identifierOf (key : String) :
    (identifierOf key).toList = camelCase true key.toList :=
  String.toList_ofList

namespace Go

/-! ## Names -/

/-- An exported identifier of the language. -/
structure ExportedIdentifier (name : String) : Prop where
  first : ∃ c, name.toList.head? = some c ∧ isCapital c = true
  rest : ∀ c ∈ name.toList.tail, isLetter c = true ∨ isDecimalDigit c = true ∨ c = '_'
  not_keyword : name ∉ keywords

theorem covers_of_isAsciiDigit {c : Char} (h : isAsciiDigit c = true) :
    Covers [(0x30, 0x39)] c.toNat := by
  obtain ⟨hzero, hnine⟩ := Bool.and_eq_true_iff.1 h
  exact covers_singleton (of_decide_eq_true hzero) (of_decide_eq_true hnine)

theorem isDecimalDigit_of_isAsciiDigit {c : Char} (h : isAsciiDigit c = true) :
    isDecimalDigit c = true := by
  obtain ⟨hzero, hnine⟩ := Bool.and_eq_true_iff.1 h
  have hlow : ¬c.toNat < 0x30 := Nat.not_lt.2 (of_decide_eq_true hzero)
  have hhigh : c.toNat ≤ 0x39 := of_decide_eq_true hnine
  rw [isDecimalDigit, decimalDigitRanges, inRanges, if_neg hlow, decide_eq_true hhigh]
  rfl

/-- The name of a key begins with a capital letter if it is valid. -/
theorem ValidName.capital {key : String} (h : ValidName (identifierOf key)) :
    ∃ c rest, (identifierOf key).toList = c :: rest ∧ isLetter c = true ∧ isCapital c = true := by
  obtain ⟨c, hhead, hupper⟩ := h.exported
  obtain ⟨rest, hname⟩ := List.head?_eq_some_iff.1 hhead
  have hstart : isIdentifierStart c = true := by
    have hid := h.identifier
    rw [isIdentifier, hname] at hid
    exact (Bool.and_eq_true_iff.1 hid).1
  have hmem : c ∈ camelCase true key.toList := by
    rw [← toList_identifierOf, hname]
    exact List.mem_cons_self
  have hletter : isLetter c = true := by
    rcases Bool.or_eq_true_iff.1 hstart with hletter | haddition
    · exact (Bool.and_eq_true_iff.1 hletter).1
    · have hcovers := covers_of_inRanges haddition
      have hclass : startAdditions ∈ strayClasses := List.mem_cons_self
      rcases mem_camelCase hmem with hletter | hdigit | ⟨a, ha, hform⟩
      · exact hletter
      · exact absurd hcovers (not_covers_of_apart (ascendingRanges_singleton _)
          (ascendingRanges_of_mem_strayClasses hclass) rfl (covers_of_isAsciiDigit hdigit))
      · exact absurd ⟨_, hclass, hcovers⟩
          (not_stray_of_mem_upperChar (isLetter_of_mem_wordInitials ha) hform)
  -- A capital that is no letter is stray.
  refine ⟨c, rest, hname, hletter, (Bool.or_eq_true_iff.1 hupper).resolve_right fun hsymbol => ?_⟩
  exact not_stray_of_isLetter hletter
    ⟨upperCaseSymbols, by simp [strayClasses], covers_of_inRanges hsymbol⟩

/-- The name of a key is exported exactly if the letters that begin words of the key have only
letters in their upper-case forms. -/
theorem ValidName.exportedIdentifier_iff {key : String} (h : ValidName (identifierOf key)) :
    ExportedIdentifier (identifierOf key) ↔
      ∀ c ∈ wordInitials true key.toList, ∀ d ∈ upperChar c, isLetter d = true := by
  obtain ⟨first, rest, hname, hletter, hcapital⟩ := h.capital
  have hchars : first :: rest = camelCase true key.toList := by
    rw [← hname, toList_identifierOf]
  constructor
  · intro hexported c hc d hd
    have hstray := not_stray_of_mem_upperChar (isLetter_of_mem_wordInitials hc) hd
    have hmem : d ∈ first :: rest := by
      rw [hchars]
      exact mem_camelCase_of_mem_wordInitials hc hd
    rcases List.mem_cons.1 hmem with rfl | hrest
    · exact hletter
    · rcases hexported.rest d (by rwa [hname]) with hd | hdigit | rfl
      · exact hd
      · exact absurd ⟨decimalDigitRanges, by simp [strayClasses], covers_of_inRanges hdigit⟩ hstray
      · exact absurd ⟨startAdditions, List.mem_cons_self, covers_of_inRanges rfl⟩ hstray
  · intro hforms
    refine ⟨⟨first, by rw [hname]; rfl, hcapital⟩, fun d hd => ?_, h.not_keyword⟩
    rw [hname] at hd
    have hmem : d ∈ camelCase true key.toList := hchars ▸ List.mem_cons_of_mem first hd
    rcases mem_camelCase hmem with hd | hdigit | ⟨c, hc, hform⟩
    · exact Or.inl hd
    · exact Or.inr (Or.inl (isDecimalDigit_of_isAsciiDigit hdigit))
    · exact Or.inl (hforms c hc d hform)

/-! ## Tags -/

/-- A name that the JSON package honours in a tag. -/
structure Honoured (key : String) : Prop where
  ne_empty : key ≠ ""
  chars : ∀ c ∈ key.toList, isLetter c = true ∨ isDecimalDigit c = true ∨ c ∈ tagPunctuation

/-- The character stands for itself inside the quotes of a tag : it neither closes them, nor starts
an escape, nor ends the tag. -/
def isPlainInTag (c : Char) : Bool :=
  c != '"' && c != '\\' && c != '\x60'

/-- The name that a tag gives its field : what stands in quotes, up to the first comma. Only tags
without escapes are read. -/
def tagName? (tag : String) : Option String :=
  match "`json:\"".toList.isPrefixOf? tag.toList with
  | none => none
  | some rest =>
    if rest.dropWhile isPlainInTag = "\"`".toList then
      some (String.ofList ((rest.takeWhile isPlainInTag).takeWhile (· != ',')))
    else none

theorem plain_of_isTagChar {c : Char} (h : isTagChar c = true) :
    isPlainInTag c = true ∧ (c != ',') = true := by
  have hne : ∀ d, isTagChar d = false → c ≠ d := by
    rintro d hd rfl
    cases h.symm.trans hd
  have hquote : c ≠ '"' := hne _ rfl
  have hslash : c ≠ '\\' := hne _ rfl
  have hend : c ≠ '\x60' := hne _ rfl
  have hcomma : c ≠ ',' := hne _ rfl
  simp [isPlainInTag, hquote, hslash, hend, hcomma]

/-- The tag of a key gives the key as the name of its field. -/
theorem tagName?_tagText {key : String} (h : Taggable key) : tagName? (tagText key) = some key := by
  have hchars : ∀ c ∈ key.toList, isPlainInTag c = true ∧ (c != ',') = true :=
    fun c hc => plain_of_isTagChar (isTagChar_iff.2 (h.chars c hc))
  have hplain : ∀ c ∈ key.toList ++ ",omitempty".toList, isPlainInTag c = true := by
    have hoption : ",omitempty".toList.all isPlainInTag = true := by decide
    intro c hc
    exact (List.mem_append.1 hc).elim (fun hc => (hchars c hc).1) (List.all_eq_true.1 hoption c)
  have htag : (tagText key).toList =
      "`json:\"".toList ++ (key.toList ++ ",omitempty".toList ++ "\"`".toList) := by
    simp [tagText]
  have hrest : "`json:\"".toList.isPrefixOf? (tagText key).toList =
      some (key.toList ++ ",omitempty".toList ++ "\"`".toList) := by
    rw [htag]
    rfl
  rw [tagName?, hrest]
  simp only
  rw [List.dropWhile_append_of_pos hplain, List.takeWhile_append_of_pos hplain, if_pos (by decide)]
  have hname : (key.toList ++ ",omitempty".toList ++ "\"`".toList.takeWhile isPlainInTag).takeWhile
      (· != ',') = key.toList := by
    rw [List.append_assoc, List.takeWhile_append_of_pos fun c hc => (hchars c hc).2]
    exact List.append_nil _
  rw [hname, String.ofList_toList]

/-- A key that can stand in a tag is honoured there exactly if its digits are decimal. -/
theorem Taggable.honoured_iff {key : String} (h : Taggable key) :
    Honoured key ↔ ∀ c ∈ key.toList, isDigit c = true → isDecimalDigit c = true := by
  constructor
  · intro hhonoured c hc hdigit
    rcases hhonoured.chars c hc with hletter | hdecimal | hpunctuation
    · cases hdigit.symm.trans (isDigit_eq_false_of_isLetter hletter)
    · exact hdecimal
    · have hdigits : (tagPunctuation.all fun d => !isDigit d) = true := rfl
      have hno := List.all_eq_true.1 hdigits c hpunctuation
      rw [hdigit] at hno
      cases hno
  · intro hdecimal
    refine ⟨h.ne_empty, fun c hc => ?_⟩
    rcases h.chars c hc with hpunctuation | hletter | hdigit
    · exact Or.inr (Or.inr hpunctuation)
    · exact Or.inl hletter
    · exact Or.inr (Or.inl (hdecimal c hc hdigit))

end Go

/-! ## Declarations of a value -/

/-- In the Go declarations of a value, the tag of a field gives its key, and its name is no keyword
and begins with a capital letter. The name is an exported identifier exactly if the letters that
begin words of the key have only letters in their upper-case forms, and the key is honoured in the
tag exactly if its digits are decimal. -/
theorem go_fields_bound_iff {o : Options} {v : Value} {x : Outline} {validate : Bool}
    {text : String} (h : (inferValue o v).1 = .ok x)
    (htext : (render "go" validate x).1 = .ok text) :
    text = Go.text x ∧ ∀ d ∈ x.declarations, ∀ f ∈ d.record,
      (Go.rowOf x.nameAt f).name = f.name ∧
      Go.tagName? (Go.rowOf x.nameAt f).tag = some f.key ∧ f.key ≠ "" ∧
      (∃ c, f.name.toList.head? = some c ∧ isCapital c = true) ∧ f.name ∉ Go.keywords ∧
      (Go.ExportedIdentifier f.name ↔
        ∀ c ∈ wordInitials true f.key.toList, ∀ d ∈ upperChar c, isLetter d = true) ∧
      (Go.Honoured f.key ↔
        ∀ c ∈ f.key.toList, isDigit c = true → isDecimalDigit c = true) := by
  obtain ⟨T, -, hx⟩ := exists_tree_of_inferValue h
  have hwrite := Go.write_eq hx.presentable fun d hd => (hx.wellFormed hd).choose_spec.ne_nil
  rw [Outline.render_go, hwrite, unlessFault_eq_ok] at htext
  refine ⟨htext.2.symm, fun d hd f hf => ?_⟩
  have hwritable : Go.Writable f := by
    have hfault := List.findSome?_eq_none_iff.1 htext.1 f (List.mem_flatMap.2 ⟨d, hd, hf⟩)
    exact Go.fault?_eq_none_iff.1 hfault
  obtain ⟨i, hrecord⟩ := hx.wellFormed hd
  have hname : f.name = identifierOf f.key := (hrecord.identifierOf_key f hf).symm
  have hvalid : Go.ValidName (identifierOf f.key) := hname ▸ hwritable.name
  obtain ⟨c, rest, hchars, -, hcapital⟩ := hvalid.capital
  rw [hname]
  exact ⟨hname, Go.tagName?_tagText hwritable.key, hwritable.key.ne_empty,
    ⟨c, by rw [hchars]; rfl, hcapital⟩, hvalid.not_keyword, hvalid.exportedIdentifier_iff,
    hwritable.key.honoured_iff⟩

/-- A key that begins with a ligature, whose upper-case form is two letters, and ends with a digit :
its field is bound to it. -/
theorem go_fields_bound_iff_ligature :
    ∃ x text, (inferValue {} (.object [(.text "ﬂag-1", .int 1)])).1 = .ok x ∧
      (render "go" true x).1 = .ok text ∧
      ∃ d ∈ x.declarations, ∃ f ∈ d.record, f.key = "ﬂag-1" ∧ f.name = "FLag1" ∧
        Go.tagName? (Go.rowOf x.nameAt f).tag = some "ﬂag-1" ∧
        Go.ExportedIdentifier "FLag1" ∧ Go.Honoured "ﬂag-1" := by
  have hrender : (inferValue {} (.object [(.text "ﬂag-1", .int 1)])).1.map (fun x =>
      ((render "go" true x).1,
        x.declarations.map fun d => d.record.map fun f => (f.key, f.name))) =
      .ok (.ok ("var data *S001 // Unmarshal into this type.\n\ntype S001 struct \x7b\n" ++
        "\tFLag1 int64 `json:\"ﬂag-1,omitempty\"`\n\x7d\n"), [[("ﬂag-1", "FLag1")]]) := by
    decide +kernel
  obtain ⟨x, hx, hpair⟩ := map_eq_ok_iff.1 hrender
  obtain ⟨htext, hnames⟩ := Prod.mk.inj hpair
  obtain ⟨d, hd, f, hf, hfield⟩ := Outline.exists_field_of_map_eq hnames
  obtain ⟨hkey, hname⟩ := Prod.mk.inj hfield
  obtain ⟨-, htag, -, -, -, hexported, hhonoured⟩ :=
    (go_fields_bound_iff hx htext.symm).2 d hd f hf
  rw [hkey, hname] at hexported
  rw [hkey] at htag hhonoured
  have hchecked : ((wordInitials true "ﬂag-1".toList).all fun c => (upperChar c).all isLetter) =
      true ∧ ("ﬂag-1".toList.all fun c => !isDigit c || isDecimalDigit c) = true := by
    decide +kernel
  obtain ⟨hforms, hdecimal⟩ := hchecked
  refine ⟨x, _, hx, htext.symm, d, hd, f, hf, hkey, hname, htag, hexported.2 fun c hc => ?_,
    hhonoured.2 fun c hc hdigit => ?_⟩
  · exact List.all_eq_true.1 (List.all_eq_true.1 hforms c hc)
  · have hc := List.all_eq_true.1 hdecimal c hc
    rwa [hdigit] at hc

/-- A superscript digit is written into a tag, which is then not honoured, and a mark into a name,
which is then no identifier. -/
theorem go_fields_unbound :
    ((inferValue {} (.object [(.text "x²", .int 1)])).1.map (fun x => (render "go" true x).1) =
        .ok (.ok ("var data *S001 // Unmarshal into this type.\n\ntype S001 struct \x7b\n" ++
          "\tX int64 `json:\"x²,omitempty\"`\n\x7d\n")) ∧
      (inferValue {} (.object [(.text "ǰ", .int 1)])).1.map (fun x => (render "go" true x).1) =
        .ok (.ok ("var data *S001 // Unmarshal into this type.\n\ntype S001 struct \x7b\n" ++
          "\tJ\u030c int64 `json:\"ǰ,omitempty\"`\n\x7d\n"))) ∧
      ¬Go.Honoured "x²" ∧ ¬Go.ExportedIdentifier "J\u030c" := by
  refine ⟨by decide +kernel, fun h => ?_, fun h => ?_⟩
  · exact absurd (h.chars '²' (by decide)) (by decide)
  · exact absurd (h.rest '\u030c' (by decide)) (by decide)

end JsonShape
