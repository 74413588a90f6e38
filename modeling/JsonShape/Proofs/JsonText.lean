import JsonShape.Json.Printer
import JsonShape.Json.Reader
import JsonShape.Proofs.Grammar
import Mathlib.Data.List.Nodup

/-!
# Printed JSON is read back

`Json.Textual` trees are made of strings, arrays and objects, and no object has a name twice. The
text that `Json.print` lays out for such a tree is read back as the same tree : the same strings,
with every quote, backslash and control character in them, and the same names in the same order
(`Json.read_print`).

A string is read back character by character (`readCodes_printChar`), which is where escapes are
undone. Trees follow by induction : what is printed for a tree is read from any place it stands at,
after blanks and before anything else (`Textual.readBack`), with as much fuel as it has characters.
-/

namespace JsonShape.Json

open Dialect (after?_of_skip opening_text opening_noItems opening_items opening_noEntries
  opening_entries joint_close joint_comma)

/-! ## Strings -/

theorem hexValue?_digitChar {n : Nat} (h : n < 16) : hexValue? n.digitChar = some n := by
  have hall : ∀ n < 16, hexValue? (Nat.digitChar n) = some n := by decide +kernel
  exact hall n h

theorem hexCode?_append (cs : List Char) (c : Char) :
    hexCode? (cs ++ [c]) = (hexCode? cs).bind fun n => (hexValue? c).map (n * 16 + ·) := by
  rw [hexCode?, List.foldl_append]
  change (do pure ((← hexCode? cs) * 16 + (← hexValue? c))) = _
  cases hexCode? cs <;> cases hexValue? c <;> rfl

theorem hexCode?_toDigits (n : Nat) : hexCode? (Nat.toDigits 16 n) = some n := by
  induction n using Nat.strongRecOn with
  | _ n ih =>
  rw [Nat.toDigits_eq_if (by decide)]
  split_ifs with hn
  · simp [hexCode?, hexValue?_digitChar hn]
  · rw [hexCode?_append, ih (n / 16) (by omega), hexValue?_digitChar (by omega)]
    simp only [Option.bind_some, Option.map_some, Option.some.injEq]
    omega

theorem hexCode?_replicate (k : Nat) (cs : List Char) :
    hexCode? (List.replicate k '0' ++ cs) = hexCode? cs := by
  induction k with
  | zero => rfl
  | succ k ih => exact ih

/-- A code of sixteen bits is read from its four digits. -/
theorem hexCode?_hexDigits {n : Nat} (h : n < 0x10000) :
    ∃ a b c d, Text.hexDigits 4 n = [a, b, c, d] ∧ hexCode? [a, b, c, d] = some n := by
  have hcode : hexCode? (Text.hexDigits 4 n) = some n := by
    rw [Text.hexDigits, hexCode?_replicate, hexCode?_toDigits]
  have hlength : (Text.hexDigits 4 n).length = 4 := by
    have hdigits : (Nat.toDigits 16 n).length ≤ 4 :=
      (Nat.length_toDigits_le_iff (by decide) (by decide)).2 h
    simp only [Text.hexDigits, List.length_append, List.length_replicate]
    omega
  match hdigits : Text.hexDigits 4 n, hlength with
  | [a, b, c, d], _ => exact ⟨a, b, c, d, rfl, hdigits ▸ hcode⟩

theorem letterEscape_cases (c : Char) :
    (∃ l, letterEscape c = some l ∧ l ≠ 'u' ∧ escaped? l = some c) ∨
      letterEscape c = none ∧ c ≠ '"' ∧ c ≠ '\\' := by
  unfold letterEscape
  split
  all_goals first
    | exact Or.inl ⟨_, rfl, by decide, rfl⟩
    | exact Or.inr ⟨rfl, by assumption, by assumption⟩

theorem readCodes_escape (done : List Nat) {l c : Char} (hu : l ≠ 'u') (hl : escaped? l = some c)
    (rest : List Char) : readCodes done ('\\' :: l :: rest) = readCodes (c.toNat :: done) rest := by
  rw [readCodes]
  · rw [hl]
  · rintro a b c d rest' h -
    exact hu h

/-- A printed character is read as its code. -/
theorem readCodes_printChar (done : List Nat) (c : Char) (rest : List Char) :
    readCodes done (printChar c ++ rest) = readCodes (c.toNat :: done) rest := by
  rcases letterEscape_cases c with ⟨l, hl, hu, hc⟩ | ⟨hnone, hquote, hslash⟩
  · rw [printChar, hl]
    exact readCodes_escape done hu hc rest
  · rw [printChar, hnone]
    simp only
    split_ifs with hcontrol
    · obtain ⟨x, y, z, w, hdigits, hcode⟩ := hexCode?_hexDigits (n := c.toNat) (by omega)
      rw [codeEscape, hdigits]
      simp only [List.cons_append, List.nil_append]
      rw [readCodes, hcode]
    · -- Any other character stands for itself.
      rw [List.singleton_append, readCodes]
      · simp [hcontrol, hslash]
      all_goals simp_all

theorem readCodes_printed (done : List Nat) (cs rest : List Char) :
    readCodes done (cs.flatMap printChar ++ '"' :: rest) =
      some (done.reverse ++ cs.map Char.toNat, rest) := by
  induction cs generalizing done with
  | nil => simp [readCodes]
  | cons c cs ih => simp [List.append_assoc, readCodes_printChar, ih]

theorem toNat_not_half (c : Char) : c.toNat < 0xD800 ∨ 0xDFFF < c.toNat := by
  rcases c.valid with h | ⟨h, -⟩
  · exact Or.inl h
  · exact Or.inr h

theorem isHighHalf_toNat (c : Char) : isHighHalf c.toNat = false := by
  have := toNat_not_half c
  simp only [isHighHalf, Bool.and_eq_false_iff, decide_eq_false_iff_not]
  omega

theorem isLowHalf_toNat (c : Char) : isLowHalf c.toNat = false := by
  have := toNat_not_half c
  simp only [isLowHalf, Bool.and_eq_false_iff, decide_eq_false_iff_not]
  omega

theorem charOfCode_toNat (c : Char) : charOfCode c.toNat = c := by
  simp [charOfCode, isHighHalf_toNat, isLowHalf_toNat]

/-- The codes of characters are joined to the characters, since none of them is half of a pair. -/
theorem joinPairs_toNat (done cs : List Char) :
    joinPairs done (cs.map Char.toNat) = done.reverse ++ cs := by
  induction cs generalizing done with
  | nil => simp [joinPairs]
  | cons c cs ih =>
    cases cs with
    | nil => simp [joinPairs, charOfCode_toNat]
    | cons d cs =>
      rw [List.map_cons, List.map_cons, joinPairs, isHighHalf_toNat]
      simp only [Bool.false_and, Bool.false_eq_true, if_false, charOfCode_toNat]
      rw [← List.map_cons, ih]
      simp

theorem readText_printed (s : String) (rest : List Char) :
    readText (s.toList.flatMap printChar ++ '"' :: rest) = .ok (s, rest) := by
  simp [readText, readCodes_printed, joinPairs_toNat]

/-! ## Blanks -/

/-- Nothing but blanks. -/
def Blank (cs : List Char) : Prop :=
  ∀ c ∈ cs, isSpace c = true

theorem blank_nil : Blank [] := by
  simp [Blank]

theorem skip_append {blanks : List Char} (h : Blank blanks) (cs : List Char) :
    schemaDialect.skip (blanks ++ cs) = schemaDialect.skip cs :=
  List.dropWhile_append_of_pos h

theorem skip_of_not_isSpace {c : Char} (h : isSpace c = false) (cs : List Char) :
    schemaDialect.skip (c :: cs) = c :: cs :=
  List.dropWhile_cons_of_neg (by simpa [schemaDialect] using h)

theorem skip_blanks {blanks : List Char} (hb : Blank blanks) {c : Char} (h : isSpace c = false)
    (cs : List Char) : schemaDialect.skip (blanks ++ c :: cs) = c :: cs := by
  rw [skip_append hb, skip_of_not_isSpace h]

/-- The characters of a line break. -/
def breakChars (level : Nat) : List Char :=
  '\n' :: List.replicate (2 * level) ' '

theorem blank_breakChars (level : Nat) : Blank (breakChars level) := by
  intro c hc
  rcases List.mem_cons.1 hc with rfl | hc
  · rfl
  · rw [List.eq_of_mem_replicate hc]
    rfl

theorem toList_lineBreak (level : Nat) : (lineBreak level).toList = breakChars level := by
  simp [lineBreak, breakChars]

/-! ## Characters of printed trees -/

/-- The characters of a printed string. -/
def stringChars (s : String) : List Char :=
  '"' :: (s.toList.flatMap printChar ++ ['"'])

/-- Parts with a comma and a line break between them. -/
def joined (level : Nat) (parts : List (List Char)) : List Char :=
  List.intercalate (',' :: breakChars level) parts

/-- The characters of a printed container. -/
def containerChars (level : Nat) (opening closing : Char) (parts : List (List Char)) : List Char :=
  if parts.isEmpty then [opening, closing]
  else
    opening :: breakChars (level + 1) ++ joined (level + 1) parts ++ breakChars level ++ [closing]

theorem toList_printString (s : String) : (printString s).toList = stringChars s := by
  simp [printString, stringChars]

theorem toList_bracketed (level : Nat) {opening closing : String} {a b : Char}
    (ha : opening.toList = [a]) (hb : closing.toList = [b]) (parts : List String) :
    (bracketed level opening closing parts).toList =
      containerChars level a b (parts.map String.toList) := by
  unfold bracketed containerChars
  cases parts with
  | nil => simp [ha, hb]
  | cons part parts =>
    simp [ha, hb, toList_lineBreak, String.toList_intercalate, joined]

theorem toList_printAt_array (level : Nat) (items : List Json) :
    (printAt level (.array items)).toList =
      containerChars level '[' ']' ((printItems (level + 1) items).map String.toList) := by
  rw [printAt]
  exact toList_bracketed level rfl rfl _

theorem toList_printAt_object (level : Nat) (entries : List (String × Json)) :
    (printAt level (.object entries)).toList =
      containerChars level '\x7b' '\x7d'
        ((printEntries (level + 1) entries).map String.toList) := by
  rw [printAt]
  exact toList_bracketed level rfl rfl _

/-! ## Trees -/

/-- Made of strings, arrays and objects without repeated names. -/
inductive Textual : Json → Prop
  | string (s : String) : Textual (.string s)
  | array {items : List Json} (h : ∀ j ∈ items, Textual j) : Textual (.array items)
  | object {entries : List (String × Json)} (hnames : (entries.map Prod.fst).Nodup)
    (h : ∀ e ∈ entries, Textual e.2) : Textual (.object entries)

theorem Textual.entries {entries : List (String × Json)} (h : (Json.object entries).Textual) :
    ∀ e ∈ entries, e.2.Textual := by
  cases h with
  | object _ h => exact h

/-- The tree is read wherever it is printed : after blanks and before anything else. -/
def ReadBack (j : Json) : Prop :=
  ∀ (level fuel : Nat) {blanks : List Char} (rest : List Char), Blank blanks →
    (printAt level j).toList.length ≤ fuel →
      schemaDialect.readTree fuel (blanks ++ ((printAt level j).toList ++ rest)) = .ok (j, rest)

theorem joined_cons_cons (level : Nat) (p q : List Char) (parts : List (List Char)) :
    joined level (p :: q :: parts) =
      p ++ ',' :: (breakChars level ++ joined level (q :: parts)) := by
  simp [joined, List.intercalate_cons_cons]

@[simp] theorem joined_singleton (level : Nat) (p : List Char) : joined level [p] = p :=
  List.intercalate_singleton

/-- Items that are read back one by one are read back in a row, up to the closing bracket. -/
theorem readItems_printed (level fuel : Nat) {items : List Json} (ih : ∀ j ∈ items, ReadBack j)
    (hne : items ≠ []) {blanks ending : List Char} (hb : Blank blanks) (hending : Blank ending)
    (rest : List Char)
    (hfuel : (joined level ((printItems level items).map String.toList)).length < fuel) :
    schemaDialect.readItems fuel (blanks ++
      (joined level ((printItems level items).map String.toList) ++ (ending ++ ']' :: rest))) =
        .ok (items, rest) := by
  induction items generalizing fuel blanks with
  | nil => exact absurd rfl hne
  | cons item items ihitems =>
    obtain ⟨fuel, rfl⟩ : ∃ n, fuel = n + 1 := ⟨fuel - 1, by omega⟩
    have hitem := ih item (List.mem_cons_self ..)
    cases items with
    | nil =>
      simp only [printItems, List.map_cons, List.map_nil, joined_singleton] at hfuel ⊢
      rw [Dialect.readItems, Dialect.rowStep, hitem _ _ _ hb (by omega)]
      simp only [joint_close (skip_blanks hending (c := ']') rfl _)]
    | cons next items =>
      have hrest := ihitems fuel (fun j hj => ih j (List.mem_cons_of_mem _ hj)) (by simp)
        (blank_breakChars level)
      simp only [printItems, List.map_cons, joined_cons_cons, List.length_append,
        List.length_cons] at hfuel hrest ⊢
      rw [List.append_assoc, Dialect.readItems, Dialect.rowStep, hitem _ _ _ hb (by omega)]
      simp only [List.cons_append, joint_comma (skip_of_not_isSpace (c := ',') rfl _)
        (b := ']') (by decide)]
      rw [List.append_assoc, hrest (by omega)]

/-- The characters of a printed entry. -/
def entryChars (level : Nat) (name : String) (value : Json) : List Char :=
  stringChars name ++ ':' :: ' ' :: (printAt level value).toList

theorem toList_printEntries_cons (level : Nat) (name : String) (value : Json)
    (entries : List (String × Json)) :
    (printEntries level ((name, value) :: entries)).map String.toList =
      entryChars level name value :: (printEntries level entries).map String.toList := by
  simp [printEntries, entryChars, toList_printString]

/-- An entry is read where it is printed, and then the entries after it. -/
theorem readEntries_entry {level fuel : Nat} {name : String} {value : Json}
    (hvalue : ReadBack value) {blanks : List Char} (hb : Blank blanks)
    (hfuel : (entryChars level name value).length ≤ fuel) {rest after : List Char}
    {entries : List (String × Json)}
    (h : (schemaDialect.skip rest = '\x7d' :: after ∧ entries = []) ∨
      ∃ more, schemaDialect.skip rest = ',' :: more ∧
        schemaDialect.readEntries fuel more = .ok (entries, after)) :
    schemaDialect.readEntries (fuel + 1) (blanks ++ (entryChars level name value ++ rest)) =
      .ok ((name, value) :: entries, after) := by
  have htext : ∀ rest : List Char,
      schemaDialect.text (name.toList.flatMap printChar ++ '"' :: rest) = .ok (name, rest) :=
    readText_printed name
  have hspace : Blank [' '] := by simp [Blank, isSpace]
  have hread := hvalue level fuel rest hspace (by simp [entryChars] at hfuel; omega)
  rw [List.singleton_append] at hread
  rw [Dialect.readEntries, Dialect.rowStep, Dialect.entryStep, Dialect.readName, entryChars,
    stringChars]
  simp only [List.cons_append, List.append_assoc, List.nil_append,
    after?_of_skip (skip_blanks hb (c := '"') rfl _), htext,
    after?_of_skip (skip_of_not_isSpace (c := ':') rfl _), hread]
  rcases h with ⟨hskip, rfl⟩ | ⟨more, hskip, hmore⟩
  · simp only [joint_close hskip]
  · simp only [joint_comma hskip (b := '\x7d') (by decide), hmore]

/-- Entries are read back in a row, up to the closing brace. -/
theorem readEntries_printed (level fuel : Nat) {entries : List (String × Json)}
    (ih : ∀ e ∈ entries, ReadBack e.2) (hne : entries ≠ []) {blanks ending : List Char}
    (hb : Blank blanks) (hending : Blank ending) (rest : List Char)
    (hfuel : (joined level ((printEntries level entries).map String.toList)).length < fuel) :
    schemaDialect.readEntries fuel (blanks ++
      (joined level ((printEntries level entries).map String.toList) ++
        (ending ++ '\x7d' :: rest))) = .ok (entries, rest) := by
  induction entries generalizing fuel blanks with
  | nil => exact absurd rfl hne
  | cons entry entries ihentries =>
    obtain ⟨name, value⟩ := entry
    obtain ⟨fuel, rfl⟩ : ∃ n, fuel = n + 1 := ⟨fuel - 1, by omega⟩
    have hvalue : ReadBack value := ih (name, value) (List.mem_cons_self ..)
    rw [toList_printEntries_cons] at hfuel ⊢
    cases entries with
    | nil =>
      simp only [printEntries, List.map_nil, joined_singleton] at hfuel ⊢
      exact readEntries_entry hvalue hb (by omega)
        (Or.inl ⟨skip_blanks hending (c := '\x7d') rfl rest, rfl⟩)
    | cons next entries =>
      obtain ⟨name', value'⟩ := next
      have hrest := ihentries fuel (fun e he => ih e (List.mem_cons_of_mem _ he)) (by simp)
        (blank_breakChars level)
      simp only [toList_printEntries_cons, joined_cons_cons, List.length_append,
        List.length_cons] at hfuel hrest ⊢
      rw [List.append_assoc, List.cons_append, List.append_assoc]
      exact readEntries_entry hvalue hb (by omega)
        (Or.inr ⟨_, skip_of_not_isSpace (c := ',') rfl _, hrest (by omega)⟩)

/-- A printed tree starts with a character that is no blank and closes nothing, so a reader that has
just seen an opening bracket goes on to read items. -/
theorem Textual.starts {j : Json} (h : j.Textual) (level : Nat) :
    ∃ c cs, (printAt level j).toList = c :: cs ∧ isSpace c = false ∧ c ≠ ']' := by
  have hcontainer : ∀ (opening closing : Char) (parts : List (List Char)),
      isSpace opening = false → opening ≠ ']' → ∃ c cs,
        containerChars level opening closing parts = c :: cs ∧ isSpace c = false ∧ c ≠ ']' := by
    intro opening closing parts hspace hclose
    unfold containerChars
    split
    · exact ⟨_, _, rfl, hspace, hclose⟩
    · exact ⟨_, _, rfl, hspace, hclose⟩
  cases h with
  | string s =>
    rw [printAt, toList_printString]
    exact ⟨_, _, rfl, rfl, by decide⟩
  | array h =>
    rw [toList_printAt_array]
    exact hcontainer _ _ _ rfl (by decide)
  | object hnames h =>
    rw [toList_printAt_object]
    exact hcontainer _ _ _ rfl (by decide)

theorem joined_starts (level : Nat) (c : Char) (cs : List Char) (parts : List (List Char)) :
    ∃ ds, joined level ((c :: cs) :: parts) = c :: ds := by
  cases parts with
  | nil => exact ⟨cs, joined_singleton ..⟩
  | cons q parts => exact ⟨_, joined_cons_cons ..⟩

/-- Entries with different names are set one after the other. -/
theorem setEntries_eq_append {entries more : List (String × Json)}
    (h : ((entries ++ more).map Prod.fst).Nodup) : setEntries entries more = entries ++ more := by
  induction more generalizing entries with
  | nil => simp [setEntries]
  | cons e more ih =>
    have hfresh : (entries.any fun f => f.1 == e.1) = false := by
      rw [List.any_eq_false]
      intro f hf heq
      rw [List.map_append, List.nodup_append] at h
      exact h.2.2 f.1 (List.mem_map_of_mem hf) e.1 (by simp) (by simpa using heq)
    have hset : setEntries entries (e :: more) = setEntries (setEntry entries e.1 e.2) more := rfl
    rw [hset, setEntry, if_neg (by simp [hfresh]), ih (by simpa using h)]
    simp

theorem ofEntries_eq_object {entries : List (String × Json)} (h : (entries.map Prod.fst).Nodup) :
    ofEntries entries = .object entries := by
  rw [ofEntries, setEntries_eq_append (by simpa using h), List.nil_append]

theorem readBack_string (s : String) : ReadBack (.string s) := by
  intro level fuel blanks rest hb hfuel
  rw [printAt, toList_printString] at hfuel ⊢
  obtain ⟨fuel, rfl⟩ : ∃ n, fuel = n + 1 := ⟨fuel - 1, by simp [stringChars] at hfuel; omega⟩
  have htext : schemaDialect.text (s.toList.flatMap printChar ++ '"' :: rest) = .ok (s, rest) :=
    readText_printed s rest
  rw [Dialect.readTree, Dialect.treeStep, stringChars]
  simp only [List.cons_append, List.append_assoc, List.nil_append,
    opening_text (skip_blanks hb (c := '"') rfl _), htext]
  rfl

theorem readTree_items {fuel : Nat} {cs rest ds after : List Char} {c : Char} {items : List Json}
    (hcs : schemaDialect.skip cs = '[' :: rest) (hrest : schemaDialect.skip rest = c :: ds)
    (hc : c ≠ ']') (h : schemaDialect.readItems fuel (c :: ds) = .ok (items, after)) :
    schemaDialect.readTree (fuel + 1) cs = .ok (.array items, after) := by
  rw [Dialect.readTree, Dialect.treeStep, opening_items hcs (by simpa [hrest] using hc), hrest]
  simp only [h]
  rfl

theorem readTree_entries {fuel : Nat} {cs rest ds after : List Char} {c : Char}
    {entries : List (String × Json)} (hcs : schemaDialect.skip cs = '\x7b' :: rest)
    (hrest : schemaDialect.skip rest = c :: ds) (hc : c ≠ '\x7d')
    (h : schemaDialect.readEntries fuel (c :: ds) = .ok (entries, after)) :
    schemaDialect.readTree (fuel + 1) cs = .ok (ofEntries entries, after) := by
  rw [Dialect.readTree, Dialect.treeStep, opening_entries hcs (by simpa [hrest] using hc), hrest]
  simp only [h]
  rfl

theorem readBack_array {items : List Json} (h : ∀ j ∈ items, j.Textual)
    (ih : ∀ j ∈ items, ReadBack j) : ReadBack (.array items) := by
  intro level fuel blanks rest hb hfuel
  rw [toList_printAt_array, containerChars] at hfuel ⊢
  obtain ⟨fuel, rfl⟩ : ∃ n, fuel = n + 1 :=
    ⟨fuel - 1, by split at hfuel <;> simp at hfuel <;> omega⟩
  cases items with
  | nil =>
    rw [printItems, List.map_nil, List.isEmpty_nil, if_pos rfl, Dialect.readTree, Dialect.treeStep,
      List.cons_append, List.cons_append, opening_noItems (skip_blanks hb rfl _)
        (skip_of_not_isSpace rfl _)]
    rfl
  | cons item items =>
    have hread := readItems_printed (level + 1) fuel ih (by simp) blank_nil (blank_breakChars level)
      rest
    obtain ⟨c, cs, hchars, hspace, hc⟩ := (h item (List.mem_cons_self ..)).starts (level + 1)
    obtain ⟨ds, hds⟩ := joined_starts (level + 1) c cs
      ((printItems (level + 1) items).map String.toList)
    simp only [printItems, List.map_cons, hchars, hds, List.isEmpty_cons, Bool.false_eq_true,
      if_false, List.cons_append, List.append_assoc, List.nil_append, List.length_append,
      List.length_cons] at hread hfuel ⊢
    exact readTree_items (skip_blanks hb rfl _) (skip_blanks (blank_breakChars _) hspace _) hc
      (hread (by omega))

theorem readBack_object {entries : List (String × Json)} (hnames : (entries.map Prod.fst).Nodup)
    (ih : ∀ e ∈ entries, ReadBack e.2) : ReadBack (.object entries) := by
  intro level fuel blanks rest hb hfuel
  rw [toList_printAt_object, containerChars] at hfuel ⊢
  obtain ⟨fuel, rfl⟩ : ∃ n, fuel = n + 1 :=
    ⟨fuel - 1, by split at hfuel <;> simp at hfuel <;> omega⟩
  -- What is read is set entry by entry, which changes nothing where names differ.
  rw [← ofEntries_eq_object hnames]
  cases entries with
  | nil =>
    rw [printEntries, List.map_nil, List.isEmpty_nil, if_pos rfl, Dialect.readTree,
      Dialect.treeStep, List.cons_append, List.cons_append,
      opening_noEntries (skip_blanks hb rfl _) (skip_of_not_isSpace rfl _)]
    rfl
  | cons entry entries =>
    obtain ⟨name, value⟩ := entry
    have hread := readEntries_printed (level + 1) fuel ih (by simp) blank_nil
      (blank_breakChars level) rest
    obtain ⟨cs, hchars⟩ : ∃ cs, entryChars (level + 1) name value = '"' :: cs := ⟨_, rfl⟩
    obtain ⟨ds, hds⟩ := joined_starts (level + 1) '"' cs
      ((printEntries (level + 1) entries).map String.toList)
    simp only [toList_printEntries_cons, hchars, hds, List.isEmpty_cons, Bool.false_eq_true,
      if_false, List.cons_append, List.append_assoc, List.nil_append, List.length_append,
      List.length_cons] at hread hfuel ⊢
    exact readTree_entries (skip_blanks hb rfl _) (skip_blanks (blank_breakChars _) rfl _)
      (by decide) (hread (by omega))

/-- A printed tree is read wherever it stands. -/
theorem Textual.readBack {j : Json} (h : j.Textual) : ReadBack j := by
  induction h with
  | string s => exact readBack_string s
  | array h ih => exact readBack_array h ih
  | object hnames _ ih => exact readBack_object hnames ih

/-- A printed tree with a line feed after it is read back as the tree. -/
theorem read_print {j : Json} (h : j.Textual) : read (j.print ++ "\n") = .ok j := by
  have hline : Blank ['\n'] := by simp [Blank, isSpace]
  have hread := h.readBack 0 (2 * ((printAt 0 j).toList ++ ['\n']).length + 2) ['\n'] blank_nil
    (by simp; omega)
  rw [List.nil_append] at hread
  have hchars : (j.print ++ "\n").toList = (printAt 0 j).toList ++ ['\n'] := by simp [print]
  rw [read, hchars, Dialect.only, Dialect.tree, hread]
  simp only
  rw [← List.append_nil ['\n'], skip_append hline]
  rfl

end JsonShape.Json
