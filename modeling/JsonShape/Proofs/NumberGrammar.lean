import JsonShape.Shape.Infer

/-!
# Grammar of number literals

`NumberLiteral.Spells` says how the parts of a literal are written, without reading them : a minus
or nothing, a whole part without leading zeros, and a fraction and an exponent if there are any.
`spells_of_scan` and `scan_of_spells` say that scanning reads this grammar, so that a text is a
literal exactly if the grammar spells it (`ofText?_eq_some_iff`).

A text that spells an integer with more digits than are taken is the only one whose shape cannot be
told (`numberTextShape_error_iff`).
-/

namespace JsonShape

open Text (isAsciiDigit)

namespace NumberLiteral

/-- One digit or more. -/
def IsDigits (cs : List Char) : Prop :=
  cs ≠ [] ∧ ∀ c ∈ cs, isAsciiDigit c = true

/-- Digits that start with no zero, or a zero alone. -/
def IsWhole (cs : List Char) : Prop :=
  IsDigits cs ∧ (cs.head? = some '0' → cs = ['0'])

/-- A fraction is a point and digits. -/
inductive SpellsFraction : Option (List Char) → List Char → Prop
  | absent : SpellsFraction none []
  | point {ds : List Char} (h : IsDigits ds) : SpellsFraction (some ds) ('.' :: ds)

/-- An exponent has a minus if it is negative, and a plus or nothing otherwise. -/
inductive SpellsSign : Bool → List Char → Prop
  | minus : SpellsSign true ['-']
  | plus : SpellsSign false ['+']
  | absent : SpellsSign false []

/-- An exponent is a mark, a sign and digits. -/
inductive SpellsExponent : Option (Bool × List Char) → List Char → Prop
  | absent : SpellsExponent none []
  | marked {mark : Char} {negative : Bool} {sign ds : List Char} (hmark : mark = 'e' ∨ mark = 'E')
    (hsign : SpellsSign negative sign) (hds : IsDigits ds) :
    SpellsExponent (some (negative, ds)) (mark :: (sign ++ ds))

/-- The minus of a negative literal. -/
def minus (negative : Bool) : List Char :=
  if negative then ['-'] else []

/-- The characters spell the literal. -/
def Spells (l : NumberLiteral) (cs : List Char) : Prop :=
  IsWhole l.whole ∧ ∃ fraction exponent, SpellsFraction l.fraction fraction ∧
    SpellsExponent l.exponent exponent ∧
    cs = minus l.negative ++ (l.whole ++ (fraction ++ exponent))

/-! ## Scanning is sound -/

theorem digits_append (cs : List Char) : (digits cs).1 ++ (digits cs).2 = cs :=
  List.takeWhile_append_dropWhile

theorem isDigits_digits {cs ds rest : List Char} (h : digits cs = (ds, rest)) (hne : ds ≠ []) :
    IsDigits ds ∧ cs = ds ++ rest := by
  have happend := digits_append cs
  rw [h] at happend
  refine ⟨⟨hne, fun c hc => ?_⟩, happend.symm⟩
  rw [digits, Prod.mk.injEq] at h
  rw [← h.1] at hc
  exact List.all_eq_true.1 List.all_takeWhile c hc

theorem isWhole_of_scanWhole {cs whole rest : List Char} (h : scanWhole cs = some (whole, rest)) :
    IsWhole whole ∧ cs = whole ++ rest := by
  unfold scanWhole at h
  split at h
  next =>
    cases h
    exact ⟨⟨⟨List.cons_ne_nil _ _, List.forall_mem_singleton.2 rfl⟩, fun _ => rfl⟩, rfl⟩
  next hzero =>
    split at h
    next => cases h
    next hfound =>
      obtain ⟨hdigits, rfl⟩ := isDigits_digits (Option.some.inj h)
        (by rintro rfl; exact hfound rest (Option.some.inj h))
      refine ⟨⟨hdigits, fun hhead => ?_⟩, rfl⟩
      cases whole with
      | nil => cases hhead
      | cons c cs =>
        obtain rfl := Option.some.inj hhead
        exact absurd rfl (hzero (cs ++ rest))

theorem spells_of_scanFraction {cs rest : List Char} {fraction : Option (List Char)}
    (h : scanFraction cs = some (fraction, rest)) :
    ∃ p, SpellsFraction fraction p ∧ cs = p ++ rest := by
  unfold scanFraction at h
  split at h
  next =>
    split at h
    next => cases h
    next hne hfound =>
      cases h
      obtain ⟨hdigits, rfl⟩ := isDigits_digits hfound hne
      exact ⟨_, .point hdigits, rfl⟩
  next =>
    cases h
    exact ⟨[], .absent, rfl⟩

theorem spells_scanSign (cs : List Char) :
    ∃ p, SpellsSign (scanSign cs).1 p ∧ cs = p ++ (scanSign cs).2 := by
  unfold scanSign
  split
  · exact ⟨_, .minus, rfl⟩
  · exact ⟨_, .plus, rfl⟩
  · exact ⟨_, .absent, rfl⟩

theorem spells_of_scanExponent {cs rest : List Char} {exponent : Option (Bool × List Char)}
    (h : scanExponent cs = some (exponent, rest)) :
    ∃ p, SpellsExponent exponent p ∧ cs = p ++ rest := by
  unfold scanExponent at h
  split at h
  next =>
    cases h
    exact ⟨[], .absent, rfl⟩
  next c inner =>
    split at h
    next hmark =>
      obtain ⟨sign, hsign, hinner⟩ := spells_scanSign inner
      simp only at h
      split at h
      next => cases h
      next hne hfound =>
        cases h
        obtain ⟨hdigits, hrest⟩ := isDigits_digits hfound hne
        refine ⟨_, .marked (by simpa using hmark) hsign hdigits, ?_⟩
        rw [hinner, hrest]
        simp
    next =>
      cases h
      exact ⟨[], .absent, rfl⟩

/-- A minus at the start is set aside. -/
theorem minus_append (cs : List Char) :
    minus (cs.head? == some '-') ++ (if cs.head? == some '-' then cs.drop 1 else cs) = cs := by
  unfold minus
  split
  next hminus =>
    obtain ⟨rest, rfl⟩ := List.head?_eq_some_iff.1 (eq_of_beq hminus)
    rfl
  next => rfl

/-- The literal that is scanned is spelled by what is taken. -/
theorem spells_of_scan {cs rest : List Char} {l : NumberLiteral} (h : scan cs = some (l, rest)) :
    ∃ p, l.Spells p ∧ cs = p ++ rest := by
  unfold scan at h
  simp only at h
  split at h
  next => cases h
  next hscan =>
    split at h
    next => cases h
    next hfraction =>
      split at h
      next => cases h
      next hexponent =>
        cases h
        obtain ⟨hwhole, hcs⟩ := isWhole_of_scanWhole hscan
        obtain ⟨f, hf, rfl⟩ := spells_of_scanFraction hfraction
        obtain ⟨e, he, rfl⟩ := spells_of_scanExponent hexponent
        refine ⟨_, ⟨hwhole, f, e, hf, he, rfl⟩, ?_⟩
        have hminus := minus_append cs
        rw [hcs] at hminus
        rw [List.append_assoc, List.append_assoc, List.append_assoc]
        exact hminus.symm

/-! ## Scanning is complete -/

/-- The characters do not go on with digits. -/
def NoDigit (cs : List Char) : Prop :=
  ∀ c ∈ cs.head?, isAsciiDigit c = false

theorem noDigit_nil : NoDigit [] := by
  intro c hc
  cases hc

theorem noDigit_cons {c : Char} {cs : List Char} : NoDigit (c :: cs) ↔ isAsciiDigit c = false := by
  simp [NoDigit]

/-- Digits start with a digit. -/
theorem IsDigits.head?_ne {ds : List Char} (h : IsDigits ds) {c : Char}
    (hc : isAsciiDigit c = false) (rest : List Char) : (ds ++ rest).head? ≠ some c := by
  obtain ⟨d, ds, rfl⟩ := List.exists_cons_of_ne_nil h.1
  rintro hhead
  obtain rfl := Option.some.inj hhead
  rw [h.2 d (List.mem_cons_self ..)] at hc
  cases hc

theorem digits_eq {ds rest : List Char} (hds : ∀ c ∈ ds, isAsciiDigit c = true)
    (hrest : NoDigit rest) : digits (ds ++ rest) = (ds, rest) := by
  rw [digits, List.takeWhile_append_of_pos hds, List.dropWhile_append_of_pos hds]
  cases rest with
  | nil => simp
  | cons c rest => simp [hrest c rfl]

theorem scanWhole_eq {whole rest : List Char} (h : IsWhole whole) (hrest : NoDigit rest) :
    scanWhole (whole ++ rest) = some (whole, rest) := by
  by_cases hzero : whole.head? = some '0'
  · rw [h.2 hzero]
    rfl
  · obtain ⟨c, cs, rfl⟩ := List.exists_cons_of_ne_nil h.1.1
    have hc : c ≠ '0' := fun hc => hzero (by rw [hc]; rfl)
    rw [scanWhole, digits_eq h.1.2 hrest]
    · exact fun inner hinner => hc (List.cons.inj hinner).1

theorem scanFraction_eq {fraction : Option (List Char)} {p rest : List Char}
    (h : SpellsFraction fraction p) (hrest : NoDigit rest) (hpoint : rest.head? ≠ some '.') :
    scanFraction (p ++ rest) = some (fraction, rest) := by
  cases h with
  | absent =>
    rw [List.nil_append, scanFraction]
    rintro inner rfl
    exact hpoint rfl
  | @point ds hds =>
    rw [List.cons_append, scanFraction, digits_eq hds.2 hrest]
    obtain ⟨c, cs, rfl⟩ := List.exists_cons_of_ne_nil hds.1
    rfl

theorem scanSign_eq {negative : Bool} {sign ds : List Char} (h : SpellsSign negative sign)
    (hds : IsDigits ds) : scanSign (sign ++ ds) = (negative, ds) := by
  cases h with
  | minus => rfl
  | plus => rfl
  | absent =>
    have hhead : ∀ {c : Char}, isAsciiDigit c = false → ds.head? ≠ some c := by
      intro c hc
      have hne := hds.head?_ne hc []
      rwa [List.append_nil] at hne
    -- Digits start with neither of the two signs.
    rw [List.nil_append, scanSign]
    · rintro inner rfl
      exact hhead rfl rfl
    · rintro inner rfl
      exact hhead rfl rfl

theorem scanExponent_eq {exponent : Option (Bool × List Char)} {p : List Char}
    (h : SpellsExponent exponent p) : scanExponent p = some (exponent, []) := by
  cases h with
  | absent => rfl
  | @marked mark negative sign ds hmark hsign hds =>
    have hdigits := digits_eq hds.2 noDigit_nil
    rw [List.append_nil] at hdigits
    have hmark : (mark == 'e' || mark == 'E') = true := by simpa using hmark
    rw [scanExponent, if_pos hmark]
    simp only [scanSign_eq hsign hds, hdigits]
    obtain ⟨c, cs, rfl⟩ := List.exists_cons_of_ne_nil hds.1
    rfl

theorem SpellsExponent.head {exponent : Option (Bool × List Char)} {p : List Char}
    (h : SpellsExponent exponent p) : NoDigit p ∧ p.head? ≠ some '.' := by
  cases h with
  | absent => exact ⟨noDigit_nil, by simp⟩
  | marked hmark =>
    rcases hmark with rfl | rfl
    · exact ⟨noDigit_cons.2 rfl, by simp⟩
    · exact ⟨noDigit_cons.2 rfl, by simp⟩

theorem SpellsFraction.noDigit_append {fraction : Option (List Char)} {p rest : List Char}
    (h : SpellsFraction fraction p) (hrest : NoDigit rest) : NoDigit (p ++ rest) := by
  cases h with
  | absent => exact hrest
  | point => exact noDigit_cons.2 rfl

/-- A literal is scanned from the characters that spell it, to their end. -/
theorem scan_of_spells {l : NumberLiteral} {cs : List Char} (h : l.Spells cs) :
    scan cs = some (l, []) := by
  obtain ⟨hwhole, f, e, hf, he, rfl⟩ := h
  have hminus : ((minus l.negative ++ (l.whole ++ (f ++ e))).head? == some '-') = l.negative := by
    cases hneg : l.negative with
    | true => rfl
    | false =>
      exact beq_false_of_ne (hwhole.1.head?_ne rfl _)
  have hdrop := minus_append (minus l.negative ++ (l.whole ++ (f ++ e)))
  rw [hminus, List.append_cancel_left_eq] at hdrop
  rw [scan]
  simp only [hminus, hdrop]
  rw [scanWhole_eq hwhole (hf.noDigit_append he.head.1)]
  simp only [scanFraction_eq hf he.head.1 he.head.2, scanExponent_eq he]

/-- A text is a literal exactly if the grammar spells it. -/
theorem ofText?_eq_some_iff {s : String} {l : NumberLiteral} :
    ofText? s = some l ↔ l.Spells s.toList := by
  constructor
  · intro h
    unfold ofText? at h
    split at h
    next hscan =>
      cases h
      obtain ⟨p, hp, hs⟩ := spells_of_scan hscan
      rwa [hs, List.append_nil]
    next => cases h
  · intro h
    rw [ofText?, scan_of_spells h]

theorem toNat_of_isAsciiDigit {c : Char} (h : isAsciiDigit c = true) :
    0x30 ≤ c.toNat ∧ c.toNat ≤ 0x39 := by
  rw [isAsciiDigit, Bool.and_eq_true, decide_eq_true_eq, decide_eq_true_eq] at h
  exact h

theorem IsDigits.ascii {ds : List Char} (h : IsDigits ds) : ∀ c ∈ ds, c.toNat < 0x80 := by
  intro c hc
  have := toNat_of_isAsciiDigit (h.2 c hc)
  omega

theorem SpellsFraction.ascii {fraction : Option (List Char)} {p : List Char}
    (h : SpellsFraction fraction p) : ∀ c ∈ p, c.toNat < 0x80 := by
  cases h with
  | absent => simp
  | point h => exact List.forall_mem_cons.2 ⟨by decide, h.ascii⟩

theorem SpellsExponent.ascii {exponent : Option (Bool × List Char)} {p : List Char}
    (h : SpellsExponent exponent p) : ∀ c ∈ p, c.toNat < 0x80 := by
  cases h with
  | absent => simp
  | marked hmark hsign hds =>
    refine List.forall_mem_cons.2 ⟨?_, List.forall_mem_append.2 ⟨?_, hds.ascii⟩⟩
    · rcases hmark with rfl | rfl <;> decide
    · cases hsign <;> simp

/-- Literals are written in ASCII. -/
theorem Spells.ascii {l : NumberLiteral} {cs : List Char} (h : l.Spells cs) :
    ∀ c ∈ cs, c.toNat < 0x80 := by
  obtain ⟨hwhole, f, e, hf, he, rfl⟩ := h
  have hminus : ∀ c ∈ minus l.negative, c.toNat < 0x80 := by
    unfold minus
    split <;> simp
  exact List.forall_mem_append.2 ⟨hminus, List.forall_mem_append.2 ⟨hwhole.1.ascii,
    List.forall_mem_append.2 ⟨hf.ascii, he.ascii⟩⟩⟩

/-- A literal starts with a minus or a digit. -/
theorem head_of_scan {cs rest : List Char} {l : NumberLiteral} (h : scan cs = some (l, rest)) :
    ∃ c inner, cs = c :: inner ∧ (c = '-' ∨ isAsciiDigit c = true) := by
  obtain ⟨p, ⟨hwhole, f, e, -, -, rfl⟩, rfl⟩ := spells_of_scan h
  cases l.negative with
  | true => exact ⟨'-', _, rfl, .inl rfl⟩
  | false =>
    obtain ⟨c, ds, hds⟩ := List.exists_cons_of_ne_nil hwhole.1.1
    refine ⟨c, _, by rw [hds]; rfl, .inr (hwhole.1.2 c (hds ▸ List.mem_cons_self ..))⟩

/-- A literal that is scanned takes a character at least. -/
theorem length_lt_of_scan {cs rest : List Char} {l : NumberLiteral}
    (h : scan cs = some (l, rest)) : rest.length < cs.length := by
  obtain ⟨p, ⟨hwhole, f, e, -, -, rfl⟩, rfl⟩ := spells_of_scan h
  have := List.length_pos_iff.2 hwhole.1.1
  simp only [List.length_append]
  omega

end NumberLiteral

/-- The shape of the number that a literal is. -/
def NumberLiteral.shape (l : NumberLiteral) : Shape :=
  if l.isInteger then integerShape l.toInt else .float64

/-- The literal is an integer with more digits than are taken. -/
def NumberLiteral.IsLong (l : NumberLiteral) : Prop :=
  l.isInteger = true ∧ maxIntegerDigits < l.whole.length

/-- The text is an integer literal with more digits than are taken. -/
def IsLongInteger (s : String) : Prop :=
  ∃ l : NumberLiteral, l.Spells s.toList ∧ l.IsLong

theorem numberTextShape_of_isLong {s : String} {l : NumberLiteral} (h : l.Spells s.toList)
    (hlong : l.IsLong) : numberTextShape s = .error (.integerTooLong l.whole.length) := by
  rw [numberTextShape, NumberLiteral.ofText?_eq_some_iff.2 h]
  exact (if_pos hlong.1).trans (if_pos hlong.2)

theorem numberTextShape_of_not_isLong {s : String} {l : NumberLiteral} (h : l.Spells s.toList)
    (hlong : ¬ l.IsLong) : numberTextShape s = .ok (some l.shape) := by
  rw [numberTextShape, NumberLiteral.ofText?_eq_some_iff.2 h, NumberLiteral.shape]
  by_cases hint : l.isInteger = true
  · rw [if_pos hint]
    exact (if_pos hint).trans (if_neg fun hlength => hlong ⟨hint, hlength⟩)
  · rw [if_neg hint]
    exact if_neg hint

/-- What the shape of a number text can be. -/
theorem numberTextShape_cases (s : String) :
    (numberTextShape s = .ok none ∧ ∀ l : NumberLiteral, ¬ l.Spells s.toList) ∨
    ∃ l : NumberLiteral, l.Spells s.toList ∧
      ((l.IsLong ∧ numberTextShape s = .error (.integerTooLong l.whole.length)) ∨
        (¬ l.IsLong ∧ numberTextShape s = .ok (some l.shape))) := by
  cases hl : NumberLiteral.ofText? s with
  | none =>
    refine .inl ⟨by rw [numberTextShape, hl], fun l hspells => ?_⟩
    rw [NumberLiteral.ofText?_eq_some_iff.2 hspells] at hl
    cases hl
  | some l =>
    have hspells := NumberLiteral.ofText?_eq_some_iff.1 hl
    refine .inr ⟨l, hspells, ?_⟩
    by_cases hlong : l.IsLong
    · exact .inl ⟨hlong, numberTextShape_of_isLong hspells hlong⟩
    · exact .inr ⟨hlong, numberTextShape_of_not_isLong hspells hlong⟩

/-- The shape of a text cannot be told only for the digits of a long literal. -/
theorem exists_isLong_of_numberTextShape {s : String} {fault : Fault}
    (h : numberTextShape s = .error fault) :
    ∃ l : NumberLiteral, l.Spells s.toList ∧ l.IsLong ∧ fault = .integerTooLong l.whole.length := by
  obtain ⟨hnone, -⟩ | ⟨l, hspells, ⟨hlong, herror⟩ | ⟨-, hok⟩⟩ := numberTextShape_cases s
  · cases hnone.symm.trans h
  · exact ⟨l, hspells, hlong, Except.error.inj (h.symm.trans herror)⟩
  · cases hok.symm.trans h

theorem numberTextShape_error_iff {s : String} :
    (∃ fault, numberTextShape s = .error fault) ↔ IsLongInteger s := by
  constructor
  · rintro ⟨fault, h⟩
    obtain ⟨l, hspells, hlong, -⟩ := exists_isLong_of_numberTextShape h
    exact ⟨l, hspells, hlong⟩
  · rintro ⟨l, hspells, hlong⟩
    exact ⟨_, numberTextShape_of_isLong hspells hlong⟩

end JsonShape
