import Mathlib.Data.List.Induction
import JsonShape.Proofs.JsonText
import JsonShape.Yaml.Printer
import JsonShape.Yaml.ScalarText

/-!
# Written scalars are read back

`Yaml.print` writes a text plain, in single quotes or in double quotes. For texts without spaces and
line feeds (`Gapless`) each style is read back as the text : a plain word up to the colon or the
line end behind it (`plainScalar_key`, `plainScalar_value`), and a quoted one up to its closing
quote (`textScalar_quoted`), whatever characters it has and however often it is cut.

In double quotes a text is made of characters, escapes and cuts. `Spells` says of such a piece what
it is read as, and is kept by putting pieces one behind the other; that the whole is read back
(`spells_doubleText`) follows the way it is written.
-/

namespace JsonShape.Yaml

/-! ## Places -/

namespace Cursor

theorem rest_step (c : Cursor) : c.step.rest = c.rest.drop 1 := by
  unfold step
  split
  next hrest => simp [hrest]
  next hrest =>
    split <;> simp [hrest]

theorem rest_skip (n : Nat) (c : Cursor) : (skip n c).rest = c.rest.drop n := by
  induction n generalizing c with
  | zero => rfl
  | succ n ih => rw [skip, ih, rest_step, List.drop_drop, Nat.add_comm]

theorem rest_skipWhile (p : Char → Bool) (c : Cursor) :
    (c.skipWhile p).rest = c.rest.dropWhile p := by
  have hsplit := congrArg (List.drop (c.rest.takeWhile p).length)
    (List.takeWhile_append_dropWhile (p := p) (l := c.rest))
  rw [List.drop_left] at hsplit
  rw [skipWhile, ahead, rest_skip, hsplit]

/-- Nothing is passed where the next character fails the test. -/
theorem skipWhile_eq_self {p : Char → Bool} {c : Cursor} (h : ∀ ch ∈ c.next?, p ch = false) :
    c.skipWhile p = c := by
  have hahead : c.ahead p = [] := by
    unfold ahead
    cases hrest : c.rest with
    | nil => rfl
    | cons ch rest => simp [h ch (by simp [next?, hrest])]
  rw [skipWhile, hahead]
  rfl

theorem break?_eq_none {c : Cursor} (h : ∀ ch ∈ c.next?, isBreak ch = false) :
    c.break? = none := by
  unfold break?
  cases hnext : c.next? with
  | none => rfl
  | some ch => simp [h ch hnext]

/-- Characters on one line are passed one column each. -/
theorem skip_line {word rest : List Char} {c : Cursor} (hrest : c.rest = word ++ rest)
    (hword : ∀ ch ∈ word, isBreak ch = false ∧ ch ≠ '\ufeff') :
    c.skip word.length = ⟨rest, c.index + word.length, c.line, c.column + word.length⟩ := by
  induction word generalizing c with
  | nil =>
    obtain ⟨_, _, _, _⟩ := c
    cases hrest
    rfl
  | cons ch word ih =>
    obtain ⟨hbreak, hmark⟩ := hword ch List.mem_cons_self
    have hstep : c.step = ⟨word ++ rest, c.index + 1, c.line, c.column + 1⟩ := by
      simp [step, hrest, hbreak, hmark]
    rw [List.length_cons, skip, hstep, ih rfl fun x hx => hword x (List.mem_cons_of_mem _ hx)]
    simp only [mk.injEq, true_and]
    omega

end Cursor

/-! ## Characters of a text -/

/-- The text has no space and no line feed. -/
def Gapless (cs : List Char) : Prop :=
  ' ' ∉ cs ∧ '\n' ∉ cs

instance (cs : List Char) : Decidable (Gapless cs) :=
  inferInstanceAs (Decidable (_ ∧ _))

namespace Gapless

variable {ch : Char} {cs : List Char}

theorem head_ne_space (h : Gapless (ch :: cs)) : ch ≠ ' ' :=
  fun heq => h.1 (heq ▸ List.mem_cons_self)

theorem head_ne_lineFeed (h : Gapless (ch :: cs)) : ch ≠ '\n' :=
  fun heq => h.2 (heq ▸ List.mem_cons_self)

theorem tail (h : Gapless (ch :: cs)) : Gapless cs :=
  ⟨fun hmem => h.1 (List.mem_cons_of_mem _ hmem), fun hmem => h.2 (List.mem_cons_of_mem _ hmem)⟩

theorem head?_ne_space (h : Gapless cs) : cs.head? ≠ some ' ' :=
  fun hhead => h.1 (List.mem_of_head? hhead)

end Gapless

theorem isOrdinary_iff {c : Char} :
    isOrdinary c = true ↔ c = '\n' ∨ 0x20 ≤ c.toNat ∧ c.toNat ≤ 0x7E := by
  simp [isOrdinary]

/-- Printable ASCII but a space. -/
def isSolid (c : Char) : Bool :=
  0x21 ≤ c.toNat && c.toNat ≤ 0x7E

theorem isSolid_iff {c : Char} : isSolid c = true ↔ 0x21 ≤ c.toNat ∧ c.toNat ≤ 0x7E := by
  simp [isSolid]

theorem isSolid_of_isOrdinary {c : Char} (h : isOrdinary c = true) (hspace : c ≠ ' ')
    (hbreak : c ≠ '\n') : isSolid c = true := by
  obtain rfl | ⟨hlow, hhigh⟩ := isOrdinary_iff.1 h
  · exact (hbreak rfl).elim
  · have hne : c.toNat ≠ 0x20 := fun heq => hspace (Char.toNat_inj.1 heq)
    exact isSolid_iff.2 ⟨by omega, hhigh⟩

theorem isGap_eq_false {c : Char} (h : isSolid c = true) : isGap c = false := by
  obtain ⟨hlow, hhigh⟩ := isSolid_iff.1 h
  have hne : ∀ d : Char, (d.toNat < 0x21 ∨ 0x7E < d.toNat) → c ≠ d := by
    rintro _ hd rfl
    omega
  simp [isGap, isBreak, hne]

theorem isBreak_eq_false {c : Char} (h : isSolid c = true) : isBreak c = false := by
  have hgap := isGap_eq_false h
  simp only [isGap, Bool.or_eq_false_iff] at hgap
  exact hgap.2

/-! ## Plain -/

/-- A text without gaps that can stand plain. -/
structure PlainWord (cs : List Char) : Prop where
  fits : fitsPlain cs = true
  gapless : Gapless cs

theorem getLast?_ne_of_hasMark {cs : List Char} (h : hasMark cs = false) :
    cs.getLast? ≠ some ':' := by
  fun_induction hasMark cs with
  | case1 => rintro ⟨⟩
  | case2 c => simpa using h
  | case3 a b rest ih =>
    simp only [Bool.or_eq_false_iff] at h
    simpa using ih h.2

namespace PlainWord

variable {cs : List Char}

theorem ne_nil (h : PlainWord cs) : cs ≠ [] := by
  rintro rfl
  cases h.fits

theorem solid (h : PlainWord cs) {c : Char} (hc : c ∈ cs) : isSolid c = true := by
  have hfits := h.fits
  simp only [fitsPlain, Bool.and_eq_true, List.all_eq_true] at hfits
  have hordinary := hfits.1.1.1.2 c hc
  exact isSolid_of_isOrdinary hordinary.1 (fun heq => h.gapless.1 (heq ▸ hc))
    fun heq => h.gapless.2 (heq ▸ hc)

theorem getLast?_ne (h : PlainWord cs) : cs.getLast? ≠ some ':' := by
  have hfits := h.fits
  simp only [fitsPlain, Bool.and_eq_true, Bool.not_eq_true'] at hfits
  exact getLast?_ne_of_hasMark hfits.2

theorem startsBadly_eq_false (h : PlainWord cs) : startsBadly cs = false := by
  have hfits := h.fits
  simp only [fitsPlain, Bool.and_eq_true, Bool.not_eq_true'] at hfits
  exact hfits.1.1.1.1.1

theorem ne_number_sign (h : PlainWord cs) : cs.head? ≠ some '#' := by
  have hstart := h.startsBadly_eq_false
  intro hhead
  obtain ⟨rest, rfl⟩ := List.head?_eq_some_iff.1 hhead
  cases hstart

end PlainWord

theorem plainPart_append {cs rest : List Char} (hsolid : ∀ c ∈ cs, isSolid c = true)
    (hlast : cs.getLast? ≠ some ':') (hrest : plainPart false rest = []) :
    plainPart false (cs ++ rest) = cs := by
  induction cs with
  | nil => exact hrest
  | cons c cs ih =>
    have hgap := isGap_eq_false (hsolid c List.mem_cons_self)
    have hcolon : (c == ':' && endsToken (cs ++ rest).head?) = false := by
      cases cs with
      | nil =>
        have hne : c ≠ ':' := by simpa using hlast
        simp [hne]
      | cons d ds =>
        have hd := isGap_eq_false (hsolid d (by simp))
        simp [endsToken, hd]
    have htail := ih (fun x hx => hsolid x (List.mem_cons_of_mem _ hx)) (by
      cases cs with
      | nil => rintro ⟨⟩
      | cons d ds => simpa using hlast)
    simp only [List.cons_append, plainPart, hgap, Bool.false_and, Bool.or_false, hcolon,
      Bool.false_eq_true, if_false, htail]

/-- What may follow a line : nothing, or a line that starts with a word. -/
structure StartsLine (rest : List Char) : Prop where
  solid : ∀ c ∈ rest.head?, isSolid c = true ∧ c ≠ '#'
  noMarker : Cursor.atDocumentMarker { rest := rest } = false

theorem plainGap_lineEnd {c : Cursor} {more : List Char} (hrest : c.rest = '\n' :: more)
    (hmore : StartsLine more) : plainGap c = ⟨[' '], c.step, true⟩ := by
  have hnext : c.step.rest = more := by rw [Cursor.rest_step, hrest]; rfl
  have hspaces : c.skipSpaces = c := by
    refine Cursor.skipWhile_eq_self fun ch hch => ?_
    rw [Cursor.next?, hrest] at hch
    cases hch
    rfl
  have hbreak : c.break? = some ('\n', c.step) := by
    simp [Cursor.break?, Cursor.next?, hrest, isBreak]
  have hhead : ∀ ch ∈ c.step.next?, isSolid ch = true ∧ ch ≠ '#' := by
    rw [Cursor.next?, hnext]
    exact hmore.solid
  have hmarker : c.step.atDocumentMarker = false := by
    rw [← hmore.noMarker, ← hnext]
    rfl
  have hfurther : plainBreaks (c.step.rest.length + 1) c.step [] = (some [], c.step) := by
    have hspace : (c.step.next? == some ' ') = false := by
      cases hch : c.step.next? with
      | none => rfl
      | some ch =>
        have hsolid := (hhead ch hch).1
        refine beq_eq_false_iff_ne.2 ?_
        rintro ⟨⟩
        cases hsolid
    rw [plainBreaks, Cursor.break?_eq_none fun ch hch => isBreak_eq_false (hhead ch hch).1]
    simp [hspace]
  simp [plainGap, hspaces, hbreak, hmarker, hfurther, fold]

/-- A colon is no gap, and ends a word only with one behind it. -/
theorem plainGap_colon {c : Cursor} {more : List Char} (hrest : c.rest = ':' :: more) :
    plainGap c = ⟨[], c, false⟩ := by
  have hnext : c.next? = some ':' := by rw [Cursor.next?, hrest]; rfl
  have hspaces : c.skipSpaces = c :=
    Cursor.skipWhile_eq_self fun ch hch => by cases hnext.symm.trans hch; rfl
  have hbreak : c.break? = none :=
    Cursor.break?_eq_none fun ch hch => by cases hnext.symm.trans hch; rfl
  simp [plainGap, hspaces, hbreak, Cursor.ahead, hrest]

theorem plainScalar_word {cs rest : List Char} {c : Cursor} (indent : Nat) (h : PlainWord cs)
    (hrest : c.rest = cs ++ rest) (hstop : plainPart false rest = [])
    (hends : (plainGap (c.skip cs.length)).text = [] ∨
      (plainGap (c.skip cs.length)).cursor.column < indent) :
    plainScalar false indent c = ⟨cs, (plainGap (c.skip cs.length)).cursor,
      (plainGap (c.skip cs.length)).crossesLine⟩ := by
  have hpart : plainPart false c.rest = cs := by
    rw [hrest]
    exact plainPart_append (fun _ => h.solid) h.getLast?_ne hstop
  have hfirst : (cs.isEmpty || c.next? == some '#') = false := by
    have hnext : c.next? = cs.head? := by
      rw [Cursor.next?, hrest, List.head?_append_of_ne_nil _ h.ne_nil]
    simp [hnext, h.ne_nil, h.ne_number_sign]
  rw [plainScalar, plainParts]
  simp only [hpart, hfirst, Bool.false_eq_true, if_false]
  obtain hempty | hcolumn := hends
  · simp [hempty]
  · simp [hcolumn]

/-- A word in front of a colon and a space is read as a plain scalar. -/
theorem plainScalar_key {cs more : List Char} {c : Cursor} (indent : Nat) (h : PlainWord cs)
    (hrest : c.rest = cs ++ ':' :: ' ' :: more) :
    plainScalar false indent c = ⟨cs, c.skip cs.length, false⟩ := by
  have hafter : (c.skip cs.length).rest = ':' :: ' ' :: more := by
    rw [Cursor.rest_skip, hrest, List.drop_left]
  have hgap := plainGap_colon hafter
  have hread := plainScalar_word indent h hrest rfl (.inl (by rw [hgap]))
  rwa [hgap] at hread

/-- A word at the end of a line is read as a plain scalar, the line end with it. -/
theorem plainScalar_value {cs more : List Char} {c : Cursor} {indent : Nat} (h : PlainWord cs)
    (hindent : 0 < indent) (hrest : c.rest = cs ++ '\n' :: more) (hmore : StartsLine more) :
    plainScalar false indent c = ⟨cs, (c.skip cs.length).step, true⟩ := by
  have hafter : (c.skip cs.length).rest = '\n' :: more := by
    rw [Cursor.rest_skip, hrest, List.drop_left]
  have hgap := plainGap_lineEnd hafter hmore
  have hcolumn : (c.skip cs.length).step.column = 0 := by
    simp [Cursor.step, hafter, isBreak]
  have hread := plainScalar_word indent h hrest rfl (.inr (by rw [hgap]; exact hcolumn ▸ hindent))
  rwa [hgap] at hread

/-! ## Single quotes -/

/-- How a character stands in single quotes. -/
def singleChar (c : Char) : List Char :=
  if c == '\'' then ['\'', '\''] else [c]

theorem singleText_eq (indent : Nat) {fuel : Nat} {isFirst : Bool} {column : Nat} {cs : List Char}
    (hfuel : cs.length ≤ fuel) (h : Gapless cs) :
    singleText indent fuel isFirst column cs = cs.flatMap singleChar := by
  induction fuel generalizing isFirst column cs with
  | zero =>
    obtain rfl := List.length_eq_zero_iff.1 (Nat.le_zero.1 hfuel)
    rfl
  | succ fuel ih =>
    cases cs with
    | nil => rfl
    | cons c cs =>
      have hlength : cs.length ≤ fuel := by simpa using hfuel
      rw [singleText]
      simp only [beq_iff_eq, h.head_ne_space, h.head_ne_lineFeed, if_false, ih hlength h.tail,
        List.flatMap_cons, singleChar]
      split <;> rfl

theorem length_le_flatMap_singleChar (cs : List Char) :
    cs.length ≤ (cs.flatMap singleChar).length := by
  induction cs with
  | nil => exact Nat.le_refl _
  | cons c cs ih =>
    have hpos : 0 < (singleChar c).length := by
      unfold singleChar
      split <;> simp
    simp only [List.flatMap_cons, List.length_cons, List.length_append]
    omega

/-- What stands in single quotes is read up to the closing one. -/
theorem quotedRest_single {cs more : List Char} (hmore : more.head? ≠ some '\'')
    (hsolid : ∀ c ∈ cs, isSolid c = true) :
    ∀ {fuel : Nat} (c : Cursor) (found : List Char), cs.length < fuel →
      c.rest = cs.flatMap singleChar ++ '\'' :: more →
      ∃ c', quotedRest '\'' fuel c found = .ok (found ++ cs, c') ∧ c'.rest = more := by
  induction cs with
  | nil =>
    intro fuel c found hfuel hrest
    cases fuel with
    | zero => exact absurd hfuel (Nat.not_lt_zero _)
    | succ fuel =>
      refine ⟨c.step, ?_, by rw [Cursor.rest_step, hrest]; rfl⟩
      rw [quotedRest, hrest]
      simp [hmore]
  | cons ch cs ih =>
    intro fuel c found hfuel hrest
    cases fuel with
    | zero => exact absurd hfuel (Nat.not_lt_zero _)
    | succ fuel =>
      have hlength : cs.length < fuel := by simpa using hfuel
      have htail := fun x hx => hsolid x (List.mem_cons_of_mem _ hx)
      by_cases hquote : ch = '\''
      · subst hquote
        obtain ⟨c', hread, hend⟩ := ih htail (c.skip 2) (found ++ ['\'']) hlength
          (by rw [Cursor.rest_skip, hrest]; rfl)
        refine ⟨c', ?_, hend⟩
        rw [quotedRest, hrest]
        simpa [singleChar] using hread
      · obtain ⟨c', hread, hend⟩ := ih htail c.step (found ++ [ch]) hlength
          (by rw [Cursor.rest_step, hrest]; simp [singleChar, hquote])
        refine ⟨c', ?_, hend⟩
        rw [quotedRest, hrest]
        have hgap := isGap_eq_false (hsolid ch List.mem_cons_self)
        simpa [singleChar, hquote, hgap] using hread

/-! ## Double quotes -/

theorem hexValue?_toUpper (c : Char) : Json.hexValue? c.toUpper = Json.hexValue? c := by
  by_cases hlow : 'a' ≤ c ∧ c ≤ 'z'
  · have hall : ∀ n < 26, Json.hexValue? (Char.ofNat (n + 97)).toUpper =
        Json.hexValue? (Char.ofNat (n + 97)) := by decide
    have hbounds : 97 ≤ c.toNat ∧ c.toNat ≤ 122 := hlow
    have hletter := hall (c.toNat - 97) (by omega)
    rwa [Nat.sub_add_cancel hbounds.1, Char.ofNat_toNat] at hletter
  · have hsame : c.toUpper = c := dif_neg hlow
    rw [hsame]

theorem hexCode?_map_toUpper (cs : List Char) :
    Json.hexCode? (cs.map Char.toUpper) = Json.hexCode? cs := by
  simp only [Json.hexCode?, List.foldl_map, hexValue?_toUpper]

theorem hexCode?_upperHexDigits (width n : Nat) :
    Json.hexCode? (Text.upperHexDigits width n) = some n := by
  rw [Text.upperHexDigits, hexCode?_map_toUpper, Text.hexDigits, Json.hexCode?_replicate,
    Json.hexCode?_toDigits]

theorem length_upperHexDigits {width n : Nat} (hdigits : (Nat.toDigits 16 n).length ≤ width) :
    (Text.upperHexDigits width n).length = width := by
  simp only [Text.upperHexDigits, Text.hexDigits, List.length_map, List.length_append,
    List.length_replicate]
  omega

/-- The text is a backslash and what is read as the character behind it. -/
def EscapeReads (ch : Char) (text : List Char) : Prop :=
  ∃ tail, text = '\\' :: tail ∧ ∀ (c : Cursor) (rest : List Char), c.rest = tail ++ rest →
    ∃ c', quotedEscape c = .ok ([ch], c') ∧ c'.rest = rest

theorem escapeReads_letter {ch letter : Char} (h : escapeLetters.lookup ch = some letter) :
    EscapeReads ch ['\\', letter] := by
  have hall : (escapeLetters.all fun e => escapes.lookup e.2 == some e.1) = true := by decide
  obtain ⟨before, after, hletters, -⟩ := List.lookup_eq_some_iff.1 h
  have hmem : (ch, letter) ∈ escapeLetters := by simp [hletters]
  have hletter := beq_iff_eq.1 (List.all_eq_true.1 hall _ hmem)
  refine ⟨[letter], rfl, fun c rest hrest => ⟨c.step, ?_, ?_⟩⟩
  · have hnext : c.next? = some letter := by rw [Cursor.next?, hrest]; rfl
    rw [quotedEscape, hnext]
    simp only [hletter]
  · rw [Cursor.rest_step, hrest]
    rfl

/-- A code is read from as many digits as its letter asks for. -/
theorem escapeReads_code {ch letter : Char} {width : Nat} (hletter : escapes.lookup letter = none)
    (hwidth : codeLengths.lookup letter = some width)
    (hdigits : (Nat.toDigits 16 ch.toNat).length ≤ width) :
    EscapeReads ch ('\\' :: letter :: Text.upperHexDigits width ch.toNat) := by
  have hlength := length_upperHexDigits hdigits
  have hcode := hexCode?_upperHexDigits width ch.toNat
  refine ⟨_, rfl, fun c rest hrest => ⟨c.skip (width + 1), ?_, ?_⟩⟩
  · have hnext : c.next? = some letter := by rw [Cursor.next?, hrest]; rfl
    have htake : c.step.rest.take width = Text.upperHexDigits width ch.toNat := by
      rw [Cursor.rest_step, hrest]
      exact List.take_left' hlength
    have hvalid : ch.toNat.isValidChar := ch.valid
    have hsmall : ¬0x10ffff < ch.toNat := by
      unfold Nat.isValidChar at hvalid
      omega
    rw [quotedEscape, hnext]
    simp only [hletter, hwidth, htake, hcode, hlength, Nat.lt_irrefl, hsmall, hvalid, if_false,
      if_true, Char.ofNat_toNat]
  · rw [Cursor.rest_skip, hrest]
    exact List.drop_left' (by simp [hlength])

theorem escapeReads_of_escape? {ch : Char} {text : List Char} (h : escape? ch = some text) :
    EscapeReads ch text := by
  have hvalid : ch.toNat.isValidChar := ch.valid
  unfold Nat.isValidChar at hvalid
  have hdigits : ∀ width, 0 < width → ch.toNat < Nat.pow 16 width →
      (Nat.toDigits 16 ch.toNat).length ≤ width :=
    fun _ hpos => (Nat.length_toDigits_le_iff (by decide) hpos).2
  unfold escape? at h
  split at h
  next letter hletter =>
    cases h
    exact escapeReads_letter hletter
  next =>
    simp only at h
    split_ifs at h with hprintable hbyte hword
    · cases h
      exact escapeReads_code rfl rfl (hdigits 2 (by decide) (show ch.toNat < 0x100 by omega))
    · cases h
      exact escapeReads_code rfl rfl (hdigits 4 (by decide) (show ch.toNat < 0x10000 by omega))
    · cases h
      exact escapeReads_code rfl rfl (hdigits 8 (by decide) (show ch.toNat < 0x100000000 by omega))

/-- A character that needs no escape is printable, and neither the quote nor the backslash. -/
theorem of_escape?_eq_none {ch : Char} (h : escape? ch = none) (hspace : ch ≠ ' ') :
    isSolid ch = true ∧ ch ≠ '"' ∧ ch ≠ '\\' := by
  have hne : ∀ d : Char, (escapeLetters.lookup d).isSome = true → ch ≠ d := by
    rintro d hd rfl
    unfold escape? at h
    split at h
    next => cases h
    next hnone => simp [hnone] at hd
  refine ⟨?_, hne _ rfl, hne _ rfl⟩
  unfold escape? at h
  split at h
  next => cases h
  next =>
    simp only at h
    split at h
    next hprintable =>
      simp only [Bool.and_eq_true, decide_eq_true_eq] at hprintable
      refine isSolid_of_isOrdinary (isOrdinary_iff.2 (.inr hprintable)) hspace ?_
      rintro rfl
      exact absurd hprintable.1 (by decide)
    next =>
      split at h
      next => cases h
      next => split at h <;> cases h

/-- A cut in double quotes is a backslash and the indentation of the next line, and reads as
nothing. -/
theorem quotedEscape_cut {c : Cursor} {indent : Nat} {rest : List Char} (hindent : 0 < indent)
    (hrest : c.rest = newLine indent ++ rest) (hsolid : ∀ ch ∈ rest.head?, isSolid ch = true) :
    ∃ c', quotedEscape c = .ok ([], c') ∧ c'.rest = rest := by
  have hnext : c.next? = some '\n' := by rw [Cursor.next?, hrest]; rfl
  have hbreak : c.break? = some ('\n', c.step) := by simp [Cursor.break?, hnext, isBreak]
  have hline : c.step.rest = List.replicate indent ' ' ++ rest := by
    rw [Cursor.rest_step, hrest]
    rfl
  have hmarker : c.step.atDocumentMarker = false := by
    cases indent with
    | zero => exact absurd hindent (Nat.lt_irrefl 0)
    | succ n => simp [Cursor.atDocumentMarker, Cursor.atMarker, hline, List.replicate_succ]
  have hafter : (c.step.skipWhile fun ch => ch == ' ' || ch == '\t').rest = rest := by
    rw [Cursor.rest_skipWhile, hline, List.dropWhile_append_of_pos (by simp)]
    cases rest with
    | nil => rfl
    | cons ch rest =>
      have hgap := isGap_eq_false (hsolid ch rfl)
      simp only [isGap, Bool.or_eq_false_iff] at hgap
      simp [hgap]
  refine ⟨_, ?_, hafter⟩
  have hends : (c.step.skipWhile fun ch => ch == ' ' || ch == '\t').break? = none := by
    refine Cursor.break?_eq_none fun ch hch => isBreak_eq_false (hsolid ch ?_)
    rwa [Cursor.next?, hafter] at hch
  rw [quotedEscape, hnext]
  simp only [show escapes.lookup '\n' = none from rfl, show codeLengths.lookup '\n' = none from rfl,
    hbreak]
  rw [quotedBreaks]
  simp only [hmarker, Bool.false_eq_true, if_false, hends]

/-- Between double quotes the text reads as what is meant, with a step for each character at
most. -/
structure Spells (text meant : List Char) : Prop where
  solid : ∀ ch ∈ text.head?, isSolid ch = true
  reads : ∀ {c : Cursor} {rest : List Char} (fuel : Nat) (found : List Char),
    c.rest = text ++ rest → (∀ ch ∈ rest.head?, isSolid ch = true) →
    ∃ c' fuel', fuel ≤ fuel' ∧ c'.rest = rest ∧
      quotedRest '"' (fuel + text.length) c found = quotedRest '"' fuel' c' (found ++ meant)

theorem Spells.nil : Spells [] [] where
  solid := by simp
  reads {c rest} fuel found hrest _ := ⟨c, fuel, Nat.le_refl _, hrest, by simp⟩

theorem Spells.append {text text' meant meant' : List Char} (h : Spells text meant)
    (h' : Spells text' meant') : Spells (text ++ text') (meant ++ meant') where
  solid := by
    cases text with
    | nil => exact h'.solid
    | cons => exact h.solid
  reads {c rest} fuel found hrest hsolid := by
    have hhead : ∀ ch ∈ (text' ++ rest).head?, isSolid ch = true := by
      cases text' with
      | nil => exact hsolid
      | cons => exact h'.solid
    rw [List.append_assoc] at hrest
    obtain ⟨c₁, fuel₁, hfuel₁, hrest₁, hread₁⟩ := h.reads (fuel + text'.length) found hrest hhead
    obtain ⟨n, rfl⟩ := Nat.exists_eq_add_of_le hfuel₁
    obtain ⟨c₂, fuel₂, hfuel₂, hrest₂, hread₂⟩ := h'.reads (fuel + n) (found ++ meant) hrest₁ hsolid
    refine ⟨c₂, fuel₂, by omega, hrest₂, ?_⟩
    rw [List.length_append, show fuel + (text.length + text'.length) =
      fuel + text'.length + text.length by omega, hread₁, show fuel + text'.length + n =
      fuel + n + text'.length by omega, hread₂, List.append_assoc]

theorem spells_escape {ch : Char} {text : List Char} (h : escape? ch = some text) :
    Spells text [ch] := by
  obtain ⟨tail, rfl, hescape⟩ := escapeReads_of_escape? h
  refine ⟨by simp; rfl, fun {c rest} fuel found hrest _ => ?_⟩
  obtain ⟨c', hread, hend⟩ := hescape c.step rest
    (by rw [Cursor.rest_step, hrest]; rfl)
  refine ⟨c', fuel + tail.length, by omega, hend, ?_⟩
  rw [List.length_cons, ← Nat.add_assoc, quotedRest, hrest]
  simp [hread, bind, Except.bind]

theorem spells_solid {ch : Char} (h : isSolid ch = true) (hquote : ch ≠ '"')
    (hslash : ch ≠ '\\') : Spells [ch] [ch] := by
  refine ⟨by simp [h], fun {c rest} fuel found hrest _ => ?_⟩
  refine ⟨c.step, fuel, Nat.le_refl _, by rw [Cursor.rest_step, hrest]; rfl, ?_⟩
  have hgap := isGap_eq_false h
  rw [List.length_singleton, quotedRest, hrest]
  simp [hquote, hslash, hgap]

theorem spells_cut {indent : Nat} (hindent : 0 < indent) :
    Spells ('\\' :: newLine indent) [] := by
  refine ⟨by simp; rfl, fun {c rest} fuel found hrest hsolid => ?_⟩
  obtain ⟨c', hread, hend⟩ := quotedEscape_cut (c := c.step) hindent
    (by rw [Cursor.rest_step, hrest]; rfl) hsolid
  refine ⟨c', fuel + (newLine indent).length, by omega, hend, ?_⟩
  rw [List.length_cons, ← Nat.add_assoc, quotedRest, hrest]
  simp [hread, bind, Except.bind]

theorem cut_eq {next : Option Char} (indent : Nat) (h : next ≠ some ' ') :
    cut indent next = ('\\' :: newLine indent, indent) := by
  simp [cut, h]

theorem spells_doubleText (canFold : Bool) {indent : Nat} (hindent : 0 < indent) {cs : List Char}
    (h : Gapless cs) (isFirst : Bool) (column run : Nat) :
    Spells (doubleText canFold indent isFirst column run cs) cs := by
  induction cs generalizing isFirst column run with
  | nil => exact .nil
  | cons ch cs ih =>
    have hspace : ch ≠ ' ' := h.head_ne_space
    have hhead : cs.head? ≠ some ' ' := h.tail.head?_ne_space
    have hcut := spells_cut hindent
    rw [doubleText]
    simp only
    split
    next text hescape =>
      have htext := spells_escape hescape
      split
      next =>
        rw [cut_eq indent hhead]
        exact (htext.append hcut).append (ih h.tail _ _ _)
      next => exact htext.append (ih h.tail _ _ _)
    next hescape =>
      obtain ⟨hsolid, hquote, hslash⟩ := of_escape?_eq_none hescape hspace
      have htext := spells_solid hsolid hquote hslash
      split
      next =>
        rw [cut_eq indent (by simpa using hspace)]
        exact hcut.append (htext.append (ih h.tail _ _ _))
      next => exact htext.append (ih h.tail _ _ _)

/-- What stands in double quotes is read as the text. -/
theorem quotedScalar_double (canFold : Bool) {indent : Nat} (column : Nat) (hindent : 0 < indent)
    {cs more : List Char} {c : Cursor} (h : Gapless cs)
    (hrest : c.rest = '"' :: doubleText canFold indent true column 0 cs ++ '"' :: more) :
    ∃ c', quotedScalar c = .ok (cs, c') ∧ c'.rest = more := by
  have hnext : c.next? = some '"' := by rw [Cursor.next?, hrest]; rfl
  have hstep : c.step.rest = doubleText canFold indent true column 0 cs ++ '"' :: more := by
    rw [Cursor.rest_step, hrest]
    rfl
  obtain ⟨c', fuel, hfuel, hend, hread⟩ := (spells_doubleText canFold hindent h true column 0).reads
    (more.length + 3) [] hstep (by simp; rfl)
  cases fuel with
  | zero => omega
  | succ fuel =>
    refine ⟨c'.step, ?_, by rw [Cursor.rest_step, hend]; rfl⟩
    have hlength : c.rest.length + 1 =
        more.length + 3 + (doubleText canFold indent true column 0 cs).length := by
      simp only [hrest, List.cons_append, List.length_cons, List.length_append]
      omega
    rw [quotedScalar, hnext]
    simp only
    rw [hlength, hread, quotedRest, hend]
    simp

/-- What stands in single quotes is read as the text. -/
theorem quotedScalar_single {cs more : List Char} {c : Cursor}
    (hsolid : ∀ ch ∈ cs, isSolid ch = true) (hmore : more.head? ≠ some '\'')
    (hrest : c.rest = '\'' :: cs.flatMap singleChar ++ '\'' :: more) :
    ∃ c', quotedScalar c = .ok (cs, c') ∧ c'.rest = more := by
  have hnext : c.next? = some '\'' := by rw [Cursor.next?, hrest]; rfl
  have hlength : cs.length < c.rest.length + 1 := by
    have hle := length_le_flatMap_singleChar cs
    simp only [hrest, List.cons_append, List.length_cons, List.length_append]
    omega
  obtain ⟨c', hread, hend⟩ := quotedRest_single hmore hsolid c.step [] hlength
    (by rw [Cursor.rest_step, hrest]; rfl)
  refine ⟨c', ?_, hend⟩
  rw [quotedScalar, hnext]
  exact hread

/-! ## Styles -/

theorem plainText_eq (indent : Nat) {fuel column : Nat} {cs : List Char} (hfuel : cs.length ≤ fuel)
    (h : Gapless cs) : plainText indent fuel column cs = cs := by
  induction fuel generalizing column cs with
  | zero =>
    obtain rfl := List.length_eq_zero_iff.1 (Nat.le_zero.1 hfuel)
    rfl
  | succ fuel ih =>
    cases cs with
    | nil => rfl
    | cons c cs =>
      have hlength : cs.length ≤ fuel := by simpa using hfuel
      rw [plainText]
      simp only [beq_iff_eq, h.head_ne_space, if_false, ih hlength h.tail]

/-- The text stands plain. -/
def standsPlain (s : String) : Bool :=
  fitsPlain s.toList && Tag.ofPlain s == .text

theorem textScalar_plain (isKey : Bool) (indent column : Nat) {s : String}
    (h : Gapless s.toList) (hplain : standsPlain s = true) :
    textScalar isKey indent column s = s.toList := by
  unfold standsPlain at hplain
  simp only [textScalar, hplain, if_true]
  cases isKey with
  | true => rfl
  | false => exact plainText_eq indent (Nat.le_succ _) h

/-- A text that does not stand plain stands in quotes, and is read from them. -/
theorem textScalar_quoted {indent : Nat} (column : Nat) (hindent : 0 < indent) {s : String}
    (h : Gapless s.toList) (hplain : standsPlain s = false) :
    ∃ quote tail, (quote = '\'' ∨ quote = '"') ∧ textScalar false indent column s = quote :: tail ∧
      ∀ {c : Cursor} {more : List Char}, more.head? ≠ some '\'' →
        c.rest = textScalar false indent column s ++ more →
        ∃ c', quotedScalar c = .ok (s.toList, c') ∧ c'.rest = more := by
  unfold standsPlain at hplain
  simp only [textScalar, hplain, Bool.false_eq_true, if_false, Bool.false_and, Bool.not_false,
    Bool.and_true]
  split
  next hsingle =>
    have hsolid : ∀ ch ∈ s.toList, isSolid ch = true := by
      simp only [fitsSingleQuotes, Bool.and_eq_true, List.all_eq_true] at hsingle
      exact fun ch hch => isSolid_of_isOrdinary (hsingle.1 ch hch) (fun heq => h.1 (heq ▸ hch))
        fun heq => h.2 (heq ▸ hch)
    rw [singleText_eq indent (Nat.le_succ _) h]
    refine ⟨_, _, .inl rfl, rfl, fun hmore hrest => quotedScalar_single hsolid hmore ?_⟩
    simpa using hrest
  next =>
    refine ⟨_, _, .inr rfl, rfl, fun _ hrest => quotedScalar_double true (column + 1) hindent h ?_⟩
    simpa using hrest

/-! ## Ordinary characters -/

theorem isOrdinary_of_isSolid {c : Char} (h : isSolid c = true) : isOrdinary c = true := by
  obtain ⟨hlow, hhigh⟩ := isSolid_iff.1 h
  exact isOrdinary_iff.2 (.inr ⟨by omega, hhigh⟩)

theorem isOrdinary_of_hexValue? {c : Char} (h : (Json.hexValue? c).isSome = true) :
    isOrdinary c = true := by
  have hbounds : '0' ≤ c ∧ c ≤ 'f' := by
    unfold Json.hexValue? at h
    split_ifs at h with hdigit hlower hupper
    · exact ⟨hdigit.1, Char.le_trans hdigit.2 (by decide)⟩
    · exact ⟨Char.le_trans (by decide) hlower.1, hlower.2⟩
    · exact ⟨Char.le_trans (by decide) hupper.1, Char.le_trans hupper.2 (by decide)⟩
    · cases h
  have hcodes : 48 ≤ c.toNat ∧ c.toNat ≤ 102 := hbounds
  exact isOrdinary_iff.2 (.inr ⟨by omega, by omega⟩)

/-- What is read as a code has nothing but digits. -/
theorem isSome_hexValue?_of_hexCode? {cs : List Char} {n : Nat} (h : Json.hexCode? cs = some n) :
    ∀ c ∈ cs, (Json.hexValue? c).isSome = true := by
  induction cs using List.reverseRecOn generalizing n with
  | nil => simp
  | append_singleton cs c ih =>
    rw [Json.hexCode?_append] at h
    obtain ⟨m, hm, hc⟩ := Option.bind_eq_some_iff.1 h
    obtain ⟨d, hd, -⟩ := Option.map_eq_some_iff.1 hc
    intro x hx
    obtain hx | hx := List.mem_append.1 hx
    · exact ih hm x hx
    · rw [List.mem_singleton.1 hx, hd]
      rfl

theorem isOrdinary_upperHexDigits {width n : Nat} :
    ∀ c ∈ Text.upperHexDigits width n, isOrdinary c = true := fun c hc =>
  isOrdinary_of_hexValue? (isSome_hexValue?_of_hexCode? (hexCode?_upperHexDigits width n) c hc)

theorem isOrdinary_escape {ch : Char} {text : List Char} (h : escape? ch = some text) :
    ∀ c ∈ text, isOrdinary c = true := by
  have hletters : (escapeLetters.all fun e => isOrdinary e.2) = true := by decide
  have hcode : ∀ letter width, isOrdinary letter = true →
      ∀ c ∈ '\\' :: letter :: Text.upperHexDigits width ch.toNat, isOrdinary c = true := by
    intro letter width hletter c hc
    obtain rfl | rfl | hc := by simpa only [List.mem_cons] using hc
    · rfl
    · exact hletter
    · exact isOrdinary_upperHexDigits c hc
  unfold escape? at h
  split at h
  next letter hletter =>
    cases h
    obtain ⟨before, after, hsplit, -⟩ := List.lookup_eq_some_iff.1 hletter
    have hmem : (ch, letter) ∈ escapeLetters := by simp [hsplit]
    intro c hc
    obtain rfl | rfl := by simpa using hc
    · rfl
    · exact List.all_eq_true.1 hletters _ hmem
  next =>
    simp only at h
    split_ifs at h
    all_goals cases h
    all_goals exact hcode _ _ rfl

theorem isOrdinary_newLine (indent : Nat) : ∀ c ∈ newLine indent, isOrdinary c = true := by
  intro c hc
  obtain rfl | hc := List.mem_cons.1 hc
  · rfl
  · rw [List.eq_of_mem_replicate hc]
    rfl

theorem isOrdinary_doubleText (canFold : Bool) (indent : Nat) {cs : List Char} (h : Gapless cs)
    (isFirst : Bool) (column run : Nat) :
    ∀ c ∈ doubleText canFold indent isFirst column run cs, isOrdinary c = true := by
  induction cs generalizing isFirst column run with
  | nil => simp [doubleText]
  | cons ch cs ih =>
    have hcut : ∀ c ∈ '\\' :: newLine indent, isOrdinary c = true :=
      List.forall_mem_cons.2 ⟨rfl, isOrdinary_newLine indent⟩
    rw [doubleText]
    simp only
    split
    next text hescape =>
      have htext := isOrdinary_escape hescape
      split
      next =>
        rw [cut_eq indent h.tail.head?_ne_space]
        exact List.forall_mem_append.2
          ⟨List.forall_mem_append.2 ⟨htext, hcut⟩, ih h.tail _ _ _⟩
      next => exact List.forall_mem_append.2 ⟨htext, ih h.tail _ _ _⟩
    next hescape =>
      have hch := isOrdinary_of_isSolid (of_escape?_eq_none hescape h.head_ne_space).1
      split
      next =>
        rw [cut_eq indent (by simpa using h.head_ne_space)]
        exact List.forall_mem_append.2 ⟨hcut, List.forall_mem_cons.2 ⟨hch, ih h.tail _ _ _⟩⟩
      next => exact List.forall_mem_cons.2 ⟨hch, ih h.tail _ _ _⟩

theorem isOrdinary_textScalar {indent column : Nat} {s : String} (h : Gapless s.toList) :
    ∀ c ∈ textScalar false indent column s, isOrdinary c = true := by
  have hquoted : ∀ {quote : Char} {body : List Char}, isOrdinary quote = true →
      (∀ c ∈ body, isOrdinary c = true) → ∀ c ∈ quote :: body ++ [quote], isOrdinary c = true := by
    intro quote body hquote hbody
    exact List.forall_mem_append.2 ⟨List.forall_mem_cons.2 ⟨hquote, hbody⟩, by simpa using hquote⟩
  cases hplain : standsPlain s with
  | true =>
    rw [textScalar_plain false indent column h hplain]
    unfold standsPlain at hplain
    simp only [fitsPlain, Bool.and_eq_true, List.all_eq_true] at hplain
    exact fun c hc => (hplain.1.1.1.1.2 c hc).1
  | false =>
    unfold standsPlain at hplain
    simp only [textScalar, hplain, Bool.false_eq_true, if_false, Bool.false_and, Bool.not_false,
      Bool.and_true]
    split
    next hsingle =>
      rw [singleText_eq indent (Nat.le_succ _) h]
      refine hquoted rfl fun c hc => ?_
      obtain ⟨x, hx, hc⟩ := List.mem_flatMap.1 hc
      simp only [fitsSingleQuotes, Bool.and_eq_true, List.all_eq_true] at hsingle
      unfold singleChar at hc
      split at hc
      next =>
        obtain rfl : c = '\'' := by simpa using hc
        rfl
      next =>
        rw [List.mem_singleton.1 hc]
        exact hsingle.1 x hx
    next => exact hquoted rfl (isOrdinary_doubleText true indent h true (column + 1) 0)

end JsonShape.Yaml
