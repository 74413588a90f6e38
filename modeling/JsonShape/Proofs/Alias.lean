import JsonShape.Proofs.FirstFault

/-!
# Aliases of model fields

A model field has the JSON key as its alias, a string literal. `Pydantic.literal?` reads such a
literal as the language of the models does : a backslash starts an escape, each escape stands for
one code, and two codes are never joined. The literal is written in printable ASCII, with a
character beyond sixteen bits as two codes (`Pydantic.codeUnits`), as JSON has it.

So what the literal denotes are the code units of the key (`literal?_asciiString`). They are the key
itself if it has no character beyond sixteen bits, and only then : in any other key the alias has
two halves of a pair where the key has one character (`alias_denotes_key_iff`).
-/

namespace JsonShape

namespace Pydantic

/-! ## String literals -/

/-- The code that an escape letter stands for. -/
def escapeCode? : Char → Option Nat
  | '\\' => some 0x5C
  | '\'' => some 0x27
  | '"' => some 0x22
  | 'a' => some 0x07
  | 'b' => some 0x08
  | 'f' => some 0x0C
  | 'n' => some 0x0A
  | 'r' => some 0x0D
  | 't' => some 0x09
  | 'v' => some 0x0B
  | _ => none

/-- One of the digits `0` to `7`. -/
def isOctalDigit (c : Char) : Bool :=
  '0' ≤ c && c ≤ '7'

/-- The value of digits in base eight. -/
def octalCode (cs : List Char) : Nat :=
  cs.foldl (fun n c => n * 8 + (c.toNat - '0'.toNat)) 0

/-- The code that so many digits in base sixteen stand for, which may not lie beyond the last
character. -/
def hexAhead? (digits : Nat) (cs : List Char) : Option Nat :=
  if cs.length < digits then none
  else (Json.hexCode? (cs.take digits)).filter (· ≤ 0x10FFFF)

/-- The codes that an escape stands for, from the characters after its backslash, and how many of
these it takes. A line end after the backslash stands for nothing, and a letter without a meaning
stands for itself, backslash included. Characters given by name are not read. -/
def escape? : List Char → Option (List Nat × Nat)
  | [] => none
  | c :: rest =>
    if isOctalDigit c then
      let digits := ((c :: rest).take 3).takeWhile isOctalDigit
      some ([octalCode digits], digits.length)
    else
      match c with
      | '\n' => some ([], 1)
      | 'x' => (hexAhead? 2 rest).map fun n => ([n], 3)
      | 'u' => (hexAhead? 4 rest).map fun n => ([n], 5)
      | 'U' => (hexAhead? 8 rest).map fun n => ([n], 9)
      | 'N' => none
      | _ =>
        match escapeCode? c with
        | some n => some ([n], 1)
        | none => some ([0x5C, c.toNat], 1)

/-- The codes of a literal up to its closing quote, after those in `done`, which are in reverse, and
what follows the quote. The first `skipped` characters belong to an escape that was read. -/
def literalCodes? (skipped : Nat) (done : List Nat) : List Char → Option (List Nat × List Char)
  | [] => none
  | c :: rest =>
    match skipped with
    | more + 1 => literalCodes? more done rest
    | 0 =>
      if c = '"' then some (done.reverse, rest)
      else if c = '\n' ∨ c = '\r' then none
      else if c = '\\' then
        match escape? rest with
        | none => none
        | some (codes, taken) => literalCodes? taken (codes.reverse ++ done) rest
      else literalCodes? 0 (c.toNat :: done) rest

/-- The codes that a literal in double quotes denotes, and what follows it. -/
def literal? : List Char → Option (List Nat × List Char)
  | '"' :: rest => literalCodes? 0 [] rest
  | _ => none

theorem literalCodes?_skip (done : List Nat) (cs rest : List Char) :
    literalCodes? cs.length done (cs ++ rest) = literalCodes? 0 done rest := by
  induction cs with
  | nil => rfl
  | cons c cs ih => exact ih

theorem literalCodes?_plain (done : List Nat) {c : Char} (hquote : c ≠ '"') (hslash : c ≠ '\\')
    (hprintable : 0x20 ≤ c.toNat) (rest : List Char) :
    literalCodes? 0 done (c :: rest) = literalCodes? 0 (c.toNat :: done) rest := by
  have hline : ¬(c = '\n' ∨ c = '\r') := by
    rintro (rfl | rfl) <;> exact absurd hprintable (by decide)
  rw [literalCodes?, if_neg hquote, if_neg hline, if_neg hslash]

/-- An escape that was read is passed over. -/
theorem literalCodes?_escape (done : List Nat) {taken rest : List Char} {codes : List Nat}
    (h : escape? (taken ++ rest) = some (codes, taken.length)) :
    literalCodes? 0 done ('\\' :: (taken ++ rest)) =
      literalCodes? 0 (codes.reverse ++ done) rest := by
  rw [literalCodes?, if_neg (by decide), if_neg (by decide), if_pos rfl, h]
  exact literalCodes?_skip _ _ _

theorem escape?_letterEscape {c l : Char} (h : Json.letterEscape c = some l) (rest : List Char) :
    escape? (l :: rest) = some ([c.toNat], 1) := by
  unfold Json.letterEscape at h
  split at h
  all_goals cases h
  all_goals rfl

theorem escape?_code {n : Nat} (h : n < 0x10000) (rest : List Char) :
    escape? ('u' :: (Text.hexDigits 4 n ++ rest)) = some ([n], 5) := by
  obtain ⟨a, b, c, d, hdigits, hcode⟩ := Json.hexCode?_hexDigits h
  have hahead : hexAhead? 4 (Text.hexDigits 4 n ++ rest) = some n := by
    have hle : n ≤ 0x10FFFF := by omega
    rw [hdigits, hexAhead?, if_neg (by simp)]
    simp [hcode, hle]
  have hescape : escape? ('u' :: (Text.hexDigits 4 n ++ rest)) =
      (hexAhead? 4 (Text.hexDigits 4 n ++ rest)).map fun n => ([n], 5) := rfl
  rw [hescape, hahead]
  rfl

theorem literalCodes?_codeEscape (done : List Nat) {n : Nat} (h : n < 0x10000) (rest : List Char) :
    literalCodes? 0 done (Json.codeEscape n ++ rest) = literalCodes? 0 (n :: done) rest := by
  obtain ⟨a, b, c, d, hdigits, -⟩ := Json.hexCode?_hexDigits h
  have hlength : ('u' :: Text.hexDigits 4 n).length = 5 := by rw [hdigits]; rfl
  have hescape : escape? ('u' :: Text.hexDigits 4 n ++ rest) =
      some ([n], ('u' :: Text.hexDigits 4 n).length) := by
    rw [hlength]
    exact escape?_code h rest
  exact literalCodes?_escape done hescape

/-! ## Code units -/

/-- The codes of sixteen bits that stand for a character : its own, or those of a pair. -/
def codeUnits (c : Char) : List Nat :=
  if c.toNat < 0x10000 then [c.toNat]
  else [0xD800 + (c.toNat - 0x10000) / 0x400, 0xDC00 + (c.toNat - 0x10000) % 0x400]

theorem toNat_lt (c : Char) : c.toNat < 0x110000 := by
  rcases c.valid with h | ⟨-, h⟩
  · exact Nat.lt_trans h (by decide)
  · exact h

/-- A character is written so that its code units are read. -/
theorem literalCodes?_asciiChar (done : List Nat) (c : Char) (rest : List Char) :
    literalCodes? 0 done (Json.asciiChar c ++ rest) =
      literalCodes? 0 ((codeUnits c).reverse ++ done) rest := by
  have hmax : c.toNat < 0x110000 := toNat_lt c
  rcases Json.letterEscape_cases c with ⟨l, hl, -, -⟩ | ⟨hnone, hquote, hslash⟩
  · have hunits : codeUnits c = [c.toNat] := by
      unfold Json.letterEscape at hl
      split at hl
      all_goals cases hl
      all_goals rfl
    rw [Json.asciiChar, hl, hunits]
    have hescape : escape? ([l] ++ rest) = some ([c.toNat], [l].length) :=
      escape?_letterEscape hl rest
    exact literalCodes?_escape done hescape
  · rw [Json.asciiChar, hnone, codeUnits]
    simp only
    split_ifs with hprintable hsmall hsmall
    · exact literalCodes?_plain done hquote hslash hprintable.1 rest
    · omega
    · exact literalCodes?_codeEscape done hsmall rest
    · rw [List.append_assoc, literalCodes?_codeEscape done (by omega),
        literalCodes?_codeEscape _ (by omega)]
      rfl

theorem literalCodes?_asciiChars (done : List Nat) (cs rest : List Char) :
    literalCodes? 0 done (cs.flatMap Json.asciiChar ++ '"' :: rest) =
      some (done.reverse ++ cs.flatMap codeUnits, rest) := by
  induction cs generalizing done with
  | nil => simp [literalCodes?]
  | cons c cs ih => simp [literalCodes?_asciiChar, ih]

/-- A string in printable ASCII denotes its code units. -/
theorem literal?_asciiString (s : String) (rest : List Char) :
    literal? ((Json.asciiString s).toList ++ rest) = some (s.toList.flatMap codeUnits, rest) := by
  have hchars : (Json.asciiString s).toList ++ rest =
      '"' :: (s.toList.flatMap Json.asciiChar ++ '"' :: rest) := by
    simp [Json.asciiString]
  rw [hchars, literal?, literalCodes?_asciiChars]
  rfl

/-- Code units are codes of characters exactly where no character needs a pair. -/
theorem flatMap_codeUnits_eq_iff {cs : List Char} :
    cs.flatMap codeUnits = cs.map Char.toNat ↔ ∀ c ∈ cs, c.toNat < 0x10000 := by
  constructor
  · intro heq c hc
    by_contra hlarge
    have hmax : c.toNat < 0x110000 := toNat_lt c
    have hunit : 0xD800 + (c.toNat - 0x10000) / 0x400 ∈ cs.map Char.toNat := by
      rw [← heq, List.mem_flatMap]
      exact ⟨c, hc, by simp [codeUnits, hlarge]⟩
    -- The first unit of a pair is no code of a character.
    obtain ⟨d, -, hd⟩ := List.mem_map.1 hunit
    have hhalf := Json.toNat_not_half d
    omega
  · intro hsmall
    induction cs with
    | nil => rfl
    | cons c cs ih =>
      obtain ⟨hc, hcs⟩ := List.forall_mem_cons.1 hsmall
      rw [List.flatMap_cons, List.map_cons, ih hcs, codeUnits, if_pos hc]
      rfl

end Pydantic

/-! ## Models of a value -/

/-- In the models of a value, the line of a field ends with its alias, a literal that denotes the
code units of the key. It denotes the key exactly if the key has no character beyond sixteen
bits. -/
theorem alias_denotes_key_iff {o : Options} {v : Value} {x : Outline} {validate : Bool}
    {text : String} (h : (inferValue o v).1 = .ok x)
    (htext : (render "pydantic" validate x).1 = .ok text) :
    text = Pydantic.text x ∧
      ∀ d ∈ Pydantic.dependencyOrder x.declarations, ∀ f ∈ d.record, ∃ literal codes,
        Pydantic.lineOf x.nameAt f = Pydantic.lineStart x.nameAt f ++ "alias=" ++ literal ++ ")" ∧
        Pydantic.literal? (literal ++ ")").toList = some (codes, [')']) ∧
        codes = f.key.toList.flatMap Pydantic.codeUnits ∧
        (codes = f.key.toList.map Char.toNat ↔ ∀ c ∈ f.key.toList, c.toNat < 0x10000) := by
  obtain ⟨T, -, hx⟩ := exists_tree_of_inferValue h
  obtain ⟨-, hperm⟩ := Pydantic.dependencyOrder_sound hx.descending
  have hwrite := Pydantic.write_eq hx.presentable fun d hd => hperm.mem_iff.1 hd
  rw [Outline.render_pydantic, hwrite, unlessFault_eq_ok] at htext
  refine ⟨htext.2.symm, fun d _ f _ => ⟨Json.asciiString f.key, _, rfl, ?_, rfl,
    Pydantic.flatMap_codeUnits_eq_iff⟩⟩
  rw [String.toList_append]
  exact Pydantic.literal?_asciiString f.key _

/-- A key with an accent, a quote and a line break is denoted by its alias. -/
theorem alias_denotes_key_iff_accented :
    ∃ x text, (inferValue {} (.object [(.text "é\"\n", .null)])).1 = .ok x ∧
      (render "pydantic" true x).1 = .ok text ∧
      ∃ d ∈ Pydantic.dependencyOrder x.declarations, ∃ f ∈ d.record, f.key = "é\"\n" ∧
        ∃ literal, Pydantic.lineOf x.nameAt f =
            Pydantic.lineStart x.nameAt f ++ "alias=" ++ literal ++ ")" ∧
          Pydantic.literal? (literal ++ ")").toList =
            some ("é\"\n".toList.map Char.toNat, [')']) := by
  have hrender : (inferValue {} (.object [(.text "é\"\n", .null)])).1.map (fun x =>
      ((render "pydantic" true x).1,
        (Pydantic.dependencyOrder x.declarations).map fun d => d.record.map FieldOf.key)) =
      .ok (.ok ("# Generated by struct-infer.\n\nimport typing\n\nimport pydantic\n\n\n" ++
        "class S001(pydantic.BaseModel):\n" ++
        "    É: typing.Any = pydantic.Field(alias=\"\\u00e9\\\"\\n\")\n\n\nData = S001\n"),
        [["é\"\n"]]) := by
    decide +kernel
  obtain ⟨x, hx, hpair⟩ := map_eq_ok_iff.1 hrender
  obtain ⟨htext, hkeys⟩ := Prod.mk.inj hpair
  obtain ⟨d, hd, f, hf, hkey⟩ := Outline.exists_field_of_map_eq hkeys
  obtain ⟨literal, codes, hline, hliteral, -, hiff⟩ :=
    (alias_denotes_key_iff hx htext.symm).2 d hd f hf
  rw [hkey] at hiff
  have hsmall : ("é\"\n".toList.all fun c => c.toNat < 0x10000) = true := rfl
  refine ⟨x, _, hx, htext.symm, d, hd, f, hf, hkey, literal, hline, ?_⟩
  rw [hliteral, hiff.2 fun c hc => of_decide_eq_true (List.all_eq_true.1 hsmall c hc)]

/-- The alias of a key with a character beyond sixteen bits denotes the two halves of a pair in its
place. -/
theorem alias_denotes_pair :
    (inferValue {} (.object [(.text "a😀", .null)])).1.map (fun x => (render "pydantic" true x).1) =
      .ok (.ok ("# Generated by struct-infer.\n\nimport typing\n\nimport pydantic\n\n\n" ++
        "class S001(pydantic.BaseModel):\n" ++
        "    A: typing.Any = pydantic.Field(alias=\"a\\ud83d\\ude00\")\n\n\nData = S001\n")) ∧
      Pydantic.literal? "\"a\\ud83d\\ude00\")".toList = some ([0x61, 0xD83D, 0xDE00], [')']) ∧
      "a😀".toList.map Char.toNat = [0x61, 0x1F600] := by
  decide +kernel

end JsonShape
