import Mathlib.Data.List.Basic
import JsonShape.Proofs.NumberText

/-!
# Streams one after another

A stream of documents may be followed by another one on a new line. `Document.decodeBytes_append`
says that the whole then holds the documents of both, in order, and that a fault of the second is
the fault of the whole.

The argument is about any reader of JSON. If strings and atoms end where they did when something
else stands behind them (`Bounded`), so do arrays and objects (`read_carries`), and the trees of a
stream are followed by those of what stands behind it (`stream_append`). A string ends at its quote
and a word after its last letter. A number ends where the characters of numbers do : behind it the
line feed stops the reader as the end of the input does.
-/

namespace JsonShape

namespace Json.Dialect

variable {ε α β : Type} {d : Dialect ε α} {cs rest tail : List Char}

/-! ## Something behind what is read -/

/-- What the reader takes from the characters it takes from them with `tail` behind them too. -/
def Carries (tail : List Char) (read : List Char → Except ε (β × List Char)) (cs : List Char) :
    Prop :=
  ∀ x rest, read cs = .ok (x, rest) → read (cs ++ tail) = .ok (x, rest ++ tail)

/-- Strings and atoms end where they did with `tail` behind them. -/
structure Bounded (d : Dialect ε α) (tail : List Char) : Prop where
  text : ∀ cs, Carries tail d.text cs
  atom : ∀ cs, Carries tail d.atom cs

theorem skip_append_of_nil (tail : List Char) (h : d.skip cs = []) :
    d.skip (cs ++ tail) = d.skip tail := by
  rw [skip] at h ⊢
  rw [List.dropWhile_append, h]
  rfl

/-- Where there is a character after the blanks, it is followed by what follows it. -/
theorem skip_append_of_ne_nil (tail : List Char) (h : d.skip cs ≠ []) :
    d.skip (cs ++ tail) = d.skip cs ++ tail := by
  unfold skip at h ⊢
  rw [List.dropWhile_append, if_neg (mt List.isEmpty_iff.1 h)]

theorem after?_append {c : Char} (tail : List Char) (h : d.after? c cs = some rest) :
    d.after? c (cs ++ tail) = some (rest ++ tail) := by
  rw [after?_eq_some_iff] at h ⊢
  rw [skip_append_of_ne_nil tail (by simp [h]), h, List.cons_append]

theorem after?_append_of_none {c : Char} (tail : List Char) (hne : d.skip cs ≠ [])
    (h : d.after? c cs = none) : d.after? c (cs ++ tail) = none := by
  rw [after?_eq_none_iff] at h ⊢
  rwa [skip_append_of_ne_nil tail hne, List.head?_append_of_ne_nil _ hne]

theorem ne_nil_of_length_lt (h : rest.length < cs.length) : cs ≠ [] := by
  rintro rfl
  cases h

end Json.Dialect

/-- The same, with `tail` behind the characters. -/
def Json.Opening.append (tail : List Char) : Json.Opening → Json.Opening
  | .text rest => .text (rest ++ tail)
  | .noItems rest => .noItems (rest ++ tail)
  | .items rest => .items (rest ++ tail)
  | .noEntries rest => .noEntries (rest ++ tail)
  | .entries rest => .entries (rest ++ tail)
  | .atom rest => .atom (rest ++ tail)

/-- What is to be read is still to come, after blanks that are passed. -/
def Json.Opening.IsAhead : Json.Opening → Prop
  | .items _ | .entries _ | .atom _ => True
  | .text _ | .noItems _ | .noEntries _ => False

namespace Json.Dialect

variable {ε α β : Type} {d : Dialect ε α} {cs rest tail : List Char}

/-- A tree starts as it did, unless the characters ended before what is to be read. -/
theorem opening_append (tail : List Char) {o : Opening} (h : d.opening cs = o)
    (hne : o.IsAhead → o.rest ≠ []) : d.opening (cs ++ tail) = o.append tail := by
  have hskip : d.skip cs ≠ [] := by
    intro hnil
    have hatom : d.opening cs = .atom [] := by rw [opening_atom (by simp [hnil]), hnil]
    rw [← h, hatom] at hne
    exact hne trivial rfl
  unfold opening at h
  split at h
  next hquote =>
    subst h
    rw [opening, after?_append tail hquote]
    rfl
  next hquote =>
    have hquote' := after?_append_of_none tail hskip hquote
    split at h
    next inner hbracket =>
      have hbracket' := after?_append tail hbracket
      split at h
      next hclose =>
        subst h
        simp only [opening, hquote', hbracket', after?_append tail hclose, Opening.append]
      next hopen =>
        subst h
        have hinner : d.skip inner ≠ [] := hne trivial
        simp only [opening, hquote', hbracket', after?_append_of_none tail hinner hopen,
          Opening.append, skip_append_of_ne_nil tail hinner]
    next hbracket =>
      have hbracket' := after?_append_of_none tail hskip hbracket
      split at h
      next inner hbrace =>
        have hbrace' := after?_append tail hbrace
        split at h
        next hclose =>
          subst h
          simp only [opening, hquote', hbracket', hbrace', after?_append tail hclose,
            Opening.append]
        next hopen =>
          subst h
          have hinner : d.skip inner ≠ [] := hne trivial
          simp only [opening, hquote', hbracket', hbrace',
            after?_append_of_none tail hinner hopen, Opening.append,
            skip_append_of_ne_nil tail hinner]
      next hbrace =>
        subst h
        simp only [opening, hquote', hbracket', after?_append_of_none tail hskip hbrace,
          Opening.append, skip_append_of_ne_nil tail hskip]

theorem joint_append_close {bracket : Char} (tail : List Char)
    (h : d.joint bracket cs = .close rest) :
    d.joint bracket (cs ++ tail) = .close (rest ++ tail) := by
  unfold joint at h
  split at h
  next hclose =>
    cases h
    rw [joint, after?_append tail hclose]
  next => split at h <;> cases h

theorem joint_append_comma {bracket : Char} (tail : List Char)
    (h : d.joint bracket cs = .comma rest) :
    d.joint bracket (cs ++ tail) = .comma (rest ++ tail) := by
  unfold joint at h
  split at h
  next => cases h
  next hclose =>
    split at h
    next hcomma =>
      cases h
      have hne : d.skip cs ≠ [] := by rw [after?_eq_some_iff.1 hcomma]; exact List.cons_ne_nil _ _
      rw [joint, after?_append_of_none tail hne hclose, after?_append tail hcomma]
    next => cases h

theorem treeStep_carries (hd : d.Consuming) (hb : d.Bounded tail)
    {items : List Char → Except ε (List α × List Char)}
    {entries : List Char → Except ε (List (String × α) × List Char)} (hshrinks : Shrinks items)
    (hshrinks' : Shrinks entries)
    (hitems : ∀ inner : List Char, inner.length < cs.length → Carries tail items inner)
    (hentries : ∀ inner : List Char, inner.length < cs.length → Carries tail entries inner) :
    Carries tail (d.treeStep items entries) cs := by
  intro t rest h
  unfold treeStep at h ⊢
  split at h
  next inner hopen =>
    rw [opening_append tail hopen False.elim]
    split at h <;> cases h
    next htext => simp only [Opening.append, hb.text _ _ _ htext]
  next hopen =>
    cases h
    rw [opening_append tail hopen False.elim]
    rfl
  next inner hopen =>
    split at h <;> cases h
    next hread =>
      rw [opening_append tail hopen fun _ => ne_nil_of_length_lt (hshrinks hread)]
      have hlt := length_rest_opening_lt hopen (by simp)
      simp only [Opening.append, hitems inner hlt _ _ hread]
  next hopen =>
    cases h
    rw [opening_append tail hopen False.elim]
    rfl
  next inner hopen =>
    split at h <;> cases h
    next hread =>
      rw [opening_append tail hopen fun _ => ne_nil_of_length_lt (hshrinks' hread)]
      have hlt := length_rest_opening_lt hopen (by simp)
      simp only [Opening.append, hentries inner hlt _ _ hread]
  next inner hopen =>
    rw [opening_append tail hopen fun _ => ne_nil_of_length_lt (hd.atom h)]
    exact hb.atom _ _ _ h

theorem rowStep_carries {c : Char} {one : List Char → Except ε (β × List Char)}
    {more : List Char → Except ε (List β × List Char)} (hone : Carries tail one cs)
    (hshrinks : Shrinks one)
    (hmore : ∀ inner : List Char, inner.length < cs.length → Carries tail more inner) :
    Carries tail (d.rowStep c one more) cs := by
  intro xs rest h
  unfold rowStep at h ⊢
  split at h
  next => cases h
  next hread =>
    rw [hone _ _ hread]
    simp only
    split at h
    next hclose =>
      cases h
      rw [joint_append_close tail hclose]
    next next hcomma =>
      rw [joint_append_comma tail hcomma]
      have hlt := (length_lt_of_joint_comma hcomma).trans (hshrinks hread)
      split at h <;> cases h
      next hread' => simp only [hmore next hlt _ _ hread']
    next => cases h

theorem readName_carries (hb : d.Bounded tail) (cs : List Char) : Carries tail d.readName cs := by
  intro name rest h
  unfold readName at h ⊢
  split at h
  next => cases h
  next inner hquote =>
    rw [after?_append tail hquote]
    simp only
    split at h
    next => cases h
    next htext =>
      rw [hb.text _ _ _ htext]
      simp only
      split at h
      next => cases h
      next hcolon =>
        cases h
        rw [after?_append tail hcolon]

theorem entryStep_carries (hd : d.Consuming) (hb : d.Bounded tail)
    {tree : List Char → Except ε (α × List Char)}
    (htree : ∀ inner : List Char, inner.length < cs.length → Carries tail tree inner) :
    Carries tail (d.entryStep tree) cs := by
  intro e rest h
  unfold entryStep at h ⊢
  split at h
  next => cases h
  next inner hname =>
    rw [readName_carries hb cs _ _ hname]
    have hlt := shrinks_readName hd hname
    split at h <;> cases h
    next hread => simp only [htree _ hlt _ _ hread]

/-- Trees, items and entries end where they did, if strings and atoms do. -/
theorem read_carries (hd : d.Consuming) (hb : d.Bounded tail) (cs : List Char) :
    Carries tail d.tree cs ∧ Carries tail d.items cs ∧ Carries tail d.entries cs := by
  induction hn : cs.length using Nat.strongRecOn generalizing cs with
  | ind n ih =>
    subst hn
    have hread := fun inner hlt => ih (List.length inner) hlt inner rfl
    have htree : Carries tail d.tree cs := by
      have hstep := treeStep_carries hd hb (shrinks_items hd) (shrinks_entries hd)
        (fun inner hlt => (hread inner hlt).2.1) fun inner hlt => (hread inner hlt).2.2
      rwa [← funext (tree_eq hd)] at hstep
    refine ⟨htree, ?_, ?_⟩
    · have hstep := rowStep_carries (d := d) (c := ']') htree (shrinks_tree hd)
        fun inner hlt => (hread inner hlt).2.1
      rwa [← funext (items_eq hd)] at hstep
    · have hentry := entryStep_carries hd hb fun inner hlt => (hread inner hlt).1
      have hstep := rowStep_carries (d := d) (c := '\x7d') hentry
        (shrinks_entryStep hd (shrinks_tree hd)) fun inner hlt => (hread inner hlt).2.2
      rwa [← funext (entries_eq hd)] at hstep

theorem stream_eq_of_skip_eq (hd : d.Consuming) {cs cs' : List Char} (h : d.skip cs = d.skip cs') :
    d.stream cs = d.stream cs' := by
  rw [stream_eq hd, stream_eq hd, h]

/-- Behind the trees of a stream come those of what stands behind it. -/
theorem stream_append (hd : d.Consuming) (hb : d.Bounded tail) {ts : List α}
    (h : d.stream cs = .ok ts) : d.stream (cs ++ tail) = (d.stream tail).map (ts ++ ·) := by
  induction ts generalizing cs with
  | nil =>
    obtain ⟨-, hskip⟩ | ⟨_, _, _, hts, -⟩ := stream_cases hd h
    · rw [stream_eq_of_skip_eq hd (skip_append_of_nil tail hskip)]
      cases d.stream tail <;> rfl
    · cases hts
  | cons t ts ih =>
    obtain ⟨hts, -⟩ | ⟨_, _, after, hts, htree, hafter⟩ := stream_cases hd h
    · cases hts
    obtain ⟨rfl, rfl⟩ := List.cons.inj hts
    have hne := ne_nil_of_length_lt (shrinks_tree hd htree)
    obtain ⟨c, inner, hskip⟩ := List.exists_cons_of_ne_nil hne
    have hread := (read_carries hd hb _).1 _ _ htree
    rw [hskip, List.cons_append] at hread
    rw [stream_eq hd, skip_append_of_ne_nil tail hne, hskip, List.cons_append]
    simp only [hread, ih hafter]
    cases d.stream tail <;> rfl

theorem afterWord?_eq_some_iff {word : List Char} :
    afterWord? word cs = some rest ↔ cs = word ++ rest := by
  fun_induction afterWord? word cs with
  | case1 cs => simp
  | case2 w ws c cs hw ih => simp [ih, (beq_iff_eq.1 hw).symm]
  | case3 w ws c cs hw =>
    have hne : c ≠ w := fun h => hw (beq_iff_eq.2 h.symm)
    simp [hne]
  | case4 => simp

end Json.Dialect

/-! ## Numbers -/

namespace NumberLiteral

open Text (isAsciiDigit)

variable {cs rest tail : List Char}

/-- No number goes on with these characters. -/
structure Stops (tail : List Char) : Prop where
  digit : NoDigit tail
  mark : ∀ c ∈ tail.head?, c ∉ ['.', 'e', 'E']

theorem noDigit_of_digits {ds : List Char} (h : digits cs = (ds, rest)) : NoDigit rest := by
  cases h
  intro c hc
  have hnot := List.head?_dropWhile_not isAsciiDigit cs
  rw [Option.mem_def.1 hc] at hnot
  exact hnot

theorem NoDigit.append (hrest : NoDigit rest) (htail : NoDigit tail) : NoDigit (rest ++ tail) := by
  cases rest with
  | nil => exact htail
  | cons c rest => exact noDigit_cons.2 (noDigit_cons.1 hrest)

theorem digits_append_of_noDigit (htail : NoDigit tail) {ds : List Char}
    (h : digits cs = (ds, rest)) : digits (cs ++ tail) = (ds, rest ++ tail) := by
  have hcs := digits_append cs
  have hds : ∀ c ∈ (digits cs).1, isAsciiDigit c = true :=
    fun c hc => List.all_eq_true.1 List.all_takeWhile c hc
  rw [h] at hcs hds
  rw [← hcs, List.append_assoc]
  exact digits_eq hds ((noDigit_of_digits h).append htail)

theorem scanWhole_of_ne_zero {c : Char} (hc : c ≠ '0') (cs : List Char) :
    scanWhole (c :: cs) =
      if (digits (c :: cs)).1 = [] then none else some (digits (c :: cs)) := by
  rw [scanWhole]
  · rcases digits (c :: cs) with ⟨ds | ds, rest⟩ <;> rfl
  · exact fun rest h => hc (List.cons.inj h).1

theorem scanWhole_append (htail : NoDigit tail) {whole : List Char}
    (h : scanWhole cs = some (whole, rest)) :
    scanWhole (cs ++ tail) = some (whole, rest ++ tail) := by
  cases cs with
  | nil => cases h
  | cons c cs =>
    by_cases hc : c = '0'
    · subst hc
      cases h
      rfl
    · rw [scanWhole_of_ne_zero hc] at h
      rw [List.cons_append, scanWhole_of_ne_zero hc, ← List.cons_append]
      split_ifs at h with hds
      have hdigits := digits_append_of_noDigit htail (Option.some.inj h)
      rw [Option.some.inj h] at hds
      rw [hdigits, if_neg hds]

theorem scanFraction_append (htail : Stops tail) {fraction : Option (List Char)}
    (h : scanFraction cs = some (fraction, rest)) :
    scanFraction (cs ++ tail) = some (fraction, rest ++ tail) := by
  cases cs with
  | nil =>
    cases h
    rw [List.nil_append, scanFraction]
    rintro inner rfl
    exact htail.mark '.' rfl (by decide)
  | cons c cs =>
    by_cases hc : c = '.'
    · subst hc
      rw [scanFraction] at h
      rw [List.cons_append, scanFraction]
      rcases hdigits : digits cs with ⟨_ | ⟨d, ds⟩, after⟩
      · rw [hdigits] at h
        cases h
      · rw [hdigits] at h
        cases h
        rw [digits_append_of_noDigit htail.digit hdigits]
    · have hplain : ∀ more, scanFraction (c :: more) = some (none, c :: more) := by
        intro more
        rw [scanFraction]
        exact fun inner hinner => hc (List.cons.inj hinner).1
      rw [hplain] at h
      cases h
      exact hplain _

theorem scanSign_append (hne : cs ≠ []) (tail : List Char) :
    scanSign (cs ++ tail) = ((scanSign cs).1, (scanSign cs).2 ++ tail) := by
  obtain ⟨c, cs, rfl⟩ := List.exists_cons_of_ne_nil hne
  by_cases hminus : c = '-'
  · subst hminus
    rfl
  by_cases hplus : c = '+'
  · subst hplus
    rfl
  have hplain : ∀ more, scanSign (c :: more) = (false, c :: more) := by
    intro more
    rw [scanSign]
    · exact fun inner hinner => hminus (List.cons.inj hinner).1
    · exact fun inner hinner => hplus (List.cons.inj hinner).1
  rw [List.cons_append, hplain, hplain, List.cons_append]

theorem scanExponent_append (htail : Stops tail) {exponent : Option (Bool × List Char)}
    (h : scanExponent cs = some (exponent, rest)) :
    scanExponent (cs ++ tail) = some (exponent, rest ++ tail) := by
  cases cs with
  | nil =>
    cases h
    cases tail with
    | nil => rfl
    | cons c tail =>
      have hmark := htail.mark c rfl
      rw [List.nil_append, scanExponent, if_neg]
      simp only [List.mem_cons, List.not_mem_nil, or_false, not_or] at hmark
      simp [hmark]
  | cons c cs =>
    rw [scanExponent] at h
    rw [List.cons_append, scanExponent]
    by_cases hmark : (c == 'e' || c == 'E') = true
    · rw [if_pos hmark] at h ⊢
      -- A mark is followed by a digit at least.
      have hne : cs ≠ [] := by
        rintro rfl
        cases h
      simp only [scanSign_append hne] at h ⊢
      rcases hdigits : digits (scanSign cs).2 with ⟨_ | ⟨d, ds⟩, after⟩
      · rw [hdigits] at h
        cases h
      · rw [hdigits] at h
        cases h
        rw [digits_append_of_noDigit htail.digit hdigits]
    · rw [if_neg hmark] at h ⊢
      cases h
      rfl

/-- A literal ends where it did, with something behind it that stops a number. -/
theorem scan_append (htail : Stops tail) {l : NumberLiteral} (h : scan cs = some (l, rest)) :
    scan (cs ++ tail) = some (l, rest ++ tail) := by
  cases cs with
  | nil => cases h
  | cons c cs =>
    have hbody : (if (c == '-') = true then cs ++ tail else c :: (cs ++ tail)) =
        (if (c == '-') = true then cs else c :: cs) ++ tail := by
      split <;> rfl
    unfold scan at h ⊢
    simp only [List.cons_append, List.head?_cons, List.drop_succ_cons, List.drop_zero,
      Option.some_beq_some, hbody] at h ⊢
    split at h
    next => cases h
    next whole afterWhole hwhole =>
      rw [scanWhole_append htail.digit hwhole]
      split at h
      next => cases h
      next fraction afterFraction hfraction =>
        simp only [scanFraction_append htail hfraction]
        split at h
        next => cases h
        next exponent afterExponent hexponent =>
          cases h
          simp only [scanExponent_append htail hexponent]

end NumberLiteral

/-! ## Documents -/

namespace Document

open Json.Dialect (Carries Bounded afterWord?_eq_some_iff)

variable {tail : List Char}

theorem readPieces_append {owed : Nat} {done pieces : List Piece} {cs rest : List Char}
    (tail : List Char) (h : readPieces owed done cs = .ok (pieces, rest)) :
    readPieces owed done (cs ++ tail) = .ok (pieces, rest ++ tail) := by
  fun_induction readPieces owed done cs with
  | case1 | case3 | case5 | case6 | case8 | case9 | case11 | case12 => cases h
  | case2 done c inner b owed hform ih =>
    rw [List.cons_append, readPieces.eq_def]
    exact (if_pos hform).trans (ih h)
  | case4 done inner =>
    cases h
    rw [List.cons_append, readPieces.eq_def]
    rfl
  | case7 done h₁ h₂ h₃ h₄ rest' n hcode _ ih =>
    rw [readPieces.eq_def]
    simp [hcode, ih h]
  | case10 done e inner hu c hescaped _ ih =>
    rw [readPieces.eq_def]
    simp [hu, hescaped, ih h]
  | case13 done c inner b hquote hslash hprintable owed howed ih =>
    rw [readPieces.eq_def]
    simp only [List.cons_append, hquote, hslash, hprintable, if_false]
    rw [howed]
    exact ih h

theorem readText_carries (tail cs : List Char) : Carries tail readText cs := by
  intro s rest h
  unfold readText at h ⊢
  split at h
  next => cases h
  next hpieces =>
    rw [readPieces_append tail hpieces]
    simp only
    split at h
    next => cases h
    next =>
      cases h
      rfl

/-- A word at the start is found, as no two words start alike. -/
theorem readWord_append {w : String × Value} (hw : w ∈ words) (rest : List Char) :
    Json.Dialect.readWord words (w.1.toList ++ rest) = some (w.2, rest) := by
  simp only [words, List.mem_cons, List.not_mem_nil, or_false] at hw
  obtain rfl | rfl | rfl := hw
  all_goals rfl

theorem readAtom_carries (htail : NumberLiteral.Stops tail) (cs : List Char) :
    Carries tail (readAtom true) cs := by
  intro v rest h
  unfold readAtom at h
  split at h
  next found hword =>
    cases h
    obtain ⟨w, hw, rfl, hafter⟩ := exists_word_of_readWord hword
    rw [afterWord?_eq_some_iff.1 hafter, List.append_assoc, readAtom, readWord_append hw]
  next =>
    split at h
    next => cases h
    next l after hscan =>
      have hscan' := NumberLiteral.scan_append htail hscan
      rw [readAtom, readWord_eq_none_of_scan hscan', hscan']
      simp only [Bool.not_true, Bool.and_false, Bool.false_eq_true, if_false] at h ⊢
      split at h
      next => cases h
      next =>
        cases h
        rfl

theorem bounded_dialect (htail : NumberLiteral.Stops tail) : (dialect true).Bounded tail :=
  ⟨readText_carries tail, readAtom_carries htail⟩

theorem stops_lineFeed (cs : List Char) : NumberLiteral.Stops ('\n' :: cs) where
  digit := NumberLiteral.noDigit_cons.2 rfl
  mark := by
    intro c hc
    obtain rfl := Option.some.inj hc
    decide

/-- Documents on a new line come after those before it. -/
theorem readDocuments_append {x : List UInt8} {documents : List Value}
    (h : readDocuments true x = .ok documents) (y : List UInt8) :
    readDocuments true (x ++ 0x0A :: y) = (readDocuments true y).map (documents ++ ·) := by
  have hchars : byteChars (x ++ 0x0A :: y) = byteChars x ++ '\n' :: byteChars y := by
    rw [byteChars, List.map_append]
    rfl
  have hline : (dialect true).stream ('\n' :: byteChars y) = (dialect true).stream (byteChars y) :=
    Json.Dialect.stream_eq_of_skip_eq (consuming_dialect true) rfl
  rw [readDocuments, hchars,
    Json.Dialect.stream_append (consuming_dialect true) (bounded_dialect (stops_lineFeed _)) h,
    hline]
  rfl

/-- A line feed behind bytes does not make them look compressed. -/
theorem not_magic_prefix_append {x : List UInt8} (hx : ¬ Gzip.magic <+: x) (y : List UInt8) :
    ¬ Gzip.magic <+: x ++ 0x0A :: y := by
  rcases x with _ | ⟨a, _ | ⟨b, x⟩⟩
  · simp [Gzip.magic, List.cons_prefix_cons]
  · simp [Gzip.magic, List.cons_prefix_cons]
  · simpa [Gzip.magic, List.cons_prefix_cons] using hx

/-- Streams concatenate. Of bytes that do not look compressed and hold documents, followed by a line
feed and by bytes of the same kind, the documents are those of the first and then those of the
second. If the second have a fault, the whole has it too. -/
theorem decodeBytes_append {x y : List UInt8} (hx : ¬ Gzip.magic <+: x) (hy : ¬ Gzip.magic <+: y)
    {documents : List Value} (h : decodeBytes x = .ok documents) :
    (∀ more, decodeBytes y = .ok more →
      decodeBytes (x ++ 0x0A :: y) = .ok (documents ++ more)) ∧
    ∀ fault, decodeBytes y = .error fault → decodeBytes (x ++ 0x0A :: y) = .error fault := by
  rw [decodeBytes_of_plain hx] at h
  rw [decodeBytes_of_plain hy, decodeBytes_of_plain (not_magic_prefix_append hx y)]
  cases hread : readDocuments true x with
  | error fault =>
    rw [hread] at h
    cases h
  | ok found =>
    rw [hread] at h
    obtain rfl := Except.ok.inj h
    rw [readDocuments_append hread]
    cases readDocuments true y with
    | ok more => simp [Except.map, Except.mapError]
    | error fault => simp [Except.map, Except.mapError]

/-- Two numbers without a blank between them, and then a text after a form feed. -/
theorem decodeBytes_append_numbers :
    decodeBytes [0x30, 0x31, 0x32] = .ok [.int 0, .int 12] ∧
      decodeBytes [0x0C, 0x22, 0x61, 0x22] = .ok [.text "a"] ∧
      decodeBytes ([0x30, 0x31, 0x32] ++ 0x0A :: [0x0C, 0x22, 0x61, 0x22]) =
        .ok ([.int 0, .int 12] ++ [.text "a"]) := by
  have hfirst : decodeBytes [0x30, 0x31, 0x32] = .ok [.int 0, .int 12] := rfl
  have hsecond : decodeBytes [0x0C, 0x22, 0x61, 0x22] = .ok [.text "a"] := rfl
  exact ⟨hfirst, hsecond, (decodeBytes_append (by decide) (by decide) hfirst).1 _ hsecond⟩

end Document

end JsonShape
