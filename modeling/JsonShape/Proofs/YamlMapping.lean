import JsonShape.Proofs.YamlScalar
import JsonShape.Yaml.Reader

/-!
# A written mapping is read back

A mapping of texts and booleans is written as one line for each key (`Line`). `Line.read_print` :
if the keys are different words and no text holds a gap, reading the lines gives the mapping back,
with its keys in order.

The lexer reads a line in three steps, for key, colon and value. That a word is a key shows only
at the colon, where the tokens that mark it are put in front of it : `Lexer.Opens` says what that
gives, on the first line and on later ones. A value ends its line plain or in quotes, and in either
case the lexer comes to the next line in the same state (`Lexer.AtLine`), which the induction over
the lines carries (`Lexer.run_lines`).
-/

namespace JsonShape

/-! ## Objects -/

namespace Value

/-- No two entries have one key. -/
def DistinctKeys (entries : List (Value × Value)) : Prop :=
  entries.Pairwise fun a b => a.1.sameKey b.1 = false

theorem sameKey_text {v : Value} {s : String} : v.sameKey (.text s) = true ↔ v = .text s := by
  constructor
  · intro h
    have hnumber : (Value.text s).number? = none := rfl
    rw [sameKey.eq_def] at h
    split at h
    · contradiction
    · rename_i t u heq
      obtain rfl := Value.text.inj heq
      rw [beq_iff_eq.1 h]
    · contradiction
    · contradiction
    · contradiction
    · rw [hnumber] at h
      split at h <;> contradiction
  · rintro rfl
    simp [sameKey]

/-- Entries with different keys are set one behind the other. -/
theorem ofEntries_eq_object {entries : List (Value × Value)} (h : DistinctKeys entries) :
    ofEntries entries = .object entries := by
  have hfold : ∀ acc, DistinctKeys (acc ++ entries) →
      entries.foldl (fun acc e => setEntry acc e.1 e.2) acc = acc ++ entries := by
    clear h
    induction entries with
    | nil => simp
    | cons e entries ih =>
      intro acc hacc
      have hnew : (acc.any fun a => a.1.sameKey e.1) = false := by
        have hcross := (List.pairwise_append.1 hacc).2.2
        exact List.any_eq_false.2 fun a ha => by simp [hcross a ha e List.mem_cons_self]
      have hset : setEntry acc e.1 e.2 = acc ++ [e] := by simp [setEntry, hnew]
      rw [List.foldl_cons, hset, ih _ (by simpa using hacc)]
      simp
  rw [ofEntries, hfold [] h, List.nil_append]

end Value

namespace Yaml

/-! ## Words -/

theorem Cursor.atMarker_eq_false {c : Cursor} {ch mark : Char} {rest : List Char}
    (hrest : c.rest = ch :: rest) (hne : ch ≠ mark) : c.atMarker mark = false := by
  simp [atMarker, hrest, hne]

/-- A word is no marker between documents. -/
theorem PlainWord.atDocumentMarker_eq_false {cs rest : List Char} {d : Char}
    {c : Cursor} (h : PlainWord cs) (hrest : c.rest = cs ++ d :: rest) (hdash : d ≠ '-')
    (hdot : d ≠ '.') : c.atDocumentMarker = false := by
  have hfits := h.fits
  simp only [fitsPlain, Bool.and_eq_true, bne_iff_ne, ne_eq] at hfits
  obtain ⟨⟨⟨-, hdashes⟩, hdots⟩, -⟩ := hfits
  have htake : ∀ mark, d ≠ mark → cs.take 3 ≠ [mark, mark, mark] →
      c.rest.take 3 ≠ [mark, mark, mark] := by
    intro mark hd hcs
    rw [hrest]
    rcases cs with _ | ⟨a, _ | ⟨b, _ | ⟨e, cs⟩⟩⟩
    · exact absurd rfl h.ne_nil
    · simp [hd]
    · simp [hd]
    · simpa using hcs
  simp [Cursor.atDocumentMarker, Cursor.atMarker, htake '-' hdash hdashes, htake '.' hdot hdots]

/-- A word starts a token. -/
theorem PlainWord.starts {cs : List Char} (h : PlainWord cs) (rest : List Char) :
    ∀ ch ∈ (cs ++ rest).head?, isSolid ch = true ∧ ch ≠ '#' := by
  intro ch hch
  obtain ⟨d, cs, rfl⟩ := List.exists_cons_of_ne_nil h.ne_nil
  cases hch
  exact ⟨h.solid List.mem_cons_self, fun heq => h.ne_number_sign (heq ▸ rfl)⟩

/-- A mark at the start of a word has a character behind it. -/
theorem PlainWord.endsToken_second? {cs rest : List Char} {ch : Char} {c : Cursor}
    (h : PlainWord (ch :: cs)) (hmark : "?:-".toList.contains ch = true)
    (hrest : c.rest = ch :: cs ++ rest) : endsToken c.second? = false := by
  have hstart := h.startsBadly_eq_false
  cases cs with
  | nil =>
    simp only [startsBadly, hmark, List.head?_nil, Option.map_none, Option.getD_none,
      Bool.and_true, Bool.or_true, Bool.true_eq_false] at hstart
  | cons d ds =>
    have hsolid : isSolid d = true := h.solid (by simp)
    simp [endsToken, Cursor.second?, hrest, isGap_eq_false hsolid]

namespace Lexer

/-! ## Between tokens -/

theorem closing_of_le {column indent : Int} (h : indent ≤ column) (outer : List Int) (n : Nat) :
    closing column indent outer n = (n, indent, outer) := by
  cases outer with
  | nil => rfl
  | cons above outer => simp [closing, Int.not_lt.2 h]

theorem unwind_of_le {s : Lexer} {column : Int} (h : s.indent ≤ column) :
    s.unwind column = s := by
  unfold unwind
  split
  · rfl
  · simp [closing_of_le h]

theorem dropStale_of_fresh {s : Lexer} (h : ∀ e ∈ s.candidates, s.isStale e.2 = false) :
    s.dropStale = .ok s := by
  have hany : (s.candidates.any fun e => s.isStale e.2 && e.2.isRequired) = false := by
    simpa using fun a b hab => by simp [h _ hab]
  have hfilter : s.candidates.filter (fun e => !s.isStale e.2) = s.candidates :=
    List.filter_eq_self.2 fun e he => by simp [h e he]
  simp [dropStale, hany, hfilter]

/-- One step of the lexer, where the text goes on behind the current block's column. -/
theorem run_succ {s s' : Lexer} {ch : Char} (fuel : Nat)
    (hready : toToken (s.cursor.rest.length + 1) s = s')
    (hfresh : ∀ e ∈ s'.candidates, s'.isStale e.2 = false)
    (hindent : s'.indent ≤ s'.cursor.column) (hnext : s'.cursor.next? = some ch) :
    run (fuel + 1) s = s'.token ch >>= run fuel := by
  rw [run, hready, dropStale_of_fresh hfresh]
  simp only [bind, Except.bind, unwind_of_le hindent, hnext]

/-- The spaces before a token are passed, and nothing else. -/
theorem toToken_eq {s : Lexer} {c : Cursor} (n : Nat) (hspaces : s.cursor.skipSpaces = c)
    (h : ∀ ch ∈ c.next?, isSolid ch = true ∧ ch ≠ '#') :
    toToken (n + 1) s = { s with cursor := c } := by
  have hnumber : (c.next? == some '#') = false :=
    beq_eq_false_iff_ne.2 fun heq => (h _ heq).2 rfl
  have hbreak := Cursor.break?_eq_none fun ch hch => isBreak_eq_false (h ch hch).1
  simp [toToken, hspaces, hnumber, hbreak]

theorem toToken_eq_self {s : Lexer} (n : Nat)
    (h : ∀ ch ∈ s.cursor.next?, isSolid ch = true ∧ ch ≠ '#') : toToken (n + 1) s = s := by
  refine toToken_eq n (Cursor.skipWhile_eq_self fun ch hch => beq_eq_false_iff_ne.2 ?_) h
  rintro rfl
  cases (h _ hch).1

theorem toToken_space {s : Lexer} {rest : List Char} (n : Nat) (hrest : s.cursor.rest = ' ' :: rest)
    (h : ∀ ch ∈ rest.head?, isSolid ch = true ∧ ch ≠ '#') :
    toToken (n + 1) s = { s with cursor := s.cursor.step } := by
  have hahead : s.cursor.ahead (· == ' ') = [' '] := by
    have hnone : rest.takeWhile (· == ' ') = [] := by
      cases rest with
      | nil => rfl
      | cons ch rest =>
        have hspace : ch ≠ ' ' := fun heq => absurd (h ch rfl).1 (heq ▸ by decide)
        simp [hspace]
    simp [Cursor.ahead, hrest, hnone]
  refine toToken_eq n ?_ ?_
  · simp [Cursor.skipSpaces, Cursor.skipWhile, hahead, Cursor.skip]
  · rwa [Cursor.next?, Cursor.rest_step, hrest]

/-- A plain word is read as a plain scalar. -/
theorem token_plain {s : Lexer} {cs rest : List Char} {ch : Char} (h : PlainWord (ch :: cs))
    (hrest : s.cursor.rest = ch :: cs ++ rest) (hdepth : s.depth = 0)
    (hmarker : s.cursor.atDocumentMarker = false) : s.token ch = s.plain := by
  have hgap := isGap_eq_false (h.solid List.mem_cons_self)
  have hstart := h.startsBadly_eq_false
  simp only [startsBadly, Bool.or_eq_false_iff] at hstart
  simp only [Cursor.atDocumentMarker, Bool.or_eq_false_iff] at hmarker
  have hspecial := hstart.1
  simp only [String.reduceToList, List.contains_eq_mem, List.mem_cons, List.not_mem_nil,
    or_false, Bool.decide_or, Bool.or_eq_false_iff, decide_eq_false_iff_not] at hspecial
  by_cases hmark : "?:-".toList.contains ch = true
  · have hsecond := h.endsToken_second? hmark hrest
    simp [token, hspecial, hmarker, hdepth, hsecond, startsPlain, hgap]
  · simp only [String.reduceToList, List.contains_eq_mem, List.mem_cons, List.not_mem_nil,
      or_false, Bool.decide_or, Bool.or_eq_true, decide_eq_true_eq, not_or] at hmark
    simp [token, hspecial, hmarker, hdepth, startsPlain, hgap, hmark]

/-- One step of the lexer, to a plain word and past it. -/
theorem run_plain {s s' : Lexer} {cs rest : List Char} {d : Char} (fuel : Nat) (h : PlainWord cs)
    (hready : toToken (s.cursor.rest.length + 1) s = s')
    (hrest : s'.cursor.rest = cs ++ d :: rest) (hdash : d ≠ '-') (hdot : d ≠ '.')
    (hcandidates : s'.candidates = []) (hdepth : s'.depth = 0)
    (hindent : s'.indent ≤ s'.cursor.column) :
    run (fuel + 1) s = s'.plain >>= run fuel := by
  have hmarker := h.atDocumentMarker_eq_false hrest hdash hdot
  obtain ⟨ch, cs, rfl⟩ := List.exists_cons_of_ne_nil h.ne_nil
  have hnext : s'.cursor.next? = some ch := by simp [Cursor.next?, hrest]
  rw [run_succ fuel hready (by simp [hcandidates]) hindent hnext,
    token_plain h hrest hdepth hmarker]

/-! ## A line -/

/-- The word at the start of a line is noted as a candidate. -/
theorem plain_key {c : Cursor} {tokens : List Token} {indent : Int} {outer : List Int}
    {cs more : List Char} (h : PlainWord cs) (hrest : c.rest = cs ++ ':' :: ' ' :: more) :
    plain ⟨c, tokens, indent, outer, 0, true, []⟩ =
      .ok ⟨c.skip cs.length, tokens ++ [.scalar (String.ofList cs) true], indent, outer, 0, false,
        [(0, ⟨tokens.length, indent == c.column, c.index, c.line, c.column⟩)]⟩ := by
  simp [plain, saveCandidate, dropCandidate, candidate?, bind, Except.bind, add,
    plainScalar_key _ h hrest]

/-- In this state a key at the first column goes into the mapping there. -/
structure Opens (tokens : List Token) (indent : Int) (outer : List Int) (opened : List Token) :
    Prop where
  indent_le : indent ≤ 0
  colon_eq : ∀ (c : Cursor) (t : Token) (k : Candidate), k.position = tokens.length →
    k.column = 0 → colon ⟨c, tokens ++ [t], indent, outer, 0, false, [(0, k)]⟩ =
      .ok ⟨c.step, opened ++ [.key, t, .value], 0, [-1], 0, false, []⟩

theorem opens_first : Opens [] (-1) [] [.mappingStart] where
  indent_le := by decide
  colon_eq c t k hposition hcolumn := by
    have hposition : k.position = 0 := hposition
    simp [colon, candidate?, forget, openBlock?, addPast, add, hposition, hcolumn, Cursor.skip]

theorem insertIdx_length (tokens : List Token) (t u : Token) :
    (tokens ++ [t]).insertIdx tokens.length u = tokens ++ [u, t] := by
  induction tokens with
  | nil => rfl
  | cons a tokens ih => simp [ih]

theorem opens_next (tokens : List Token) : Opens tokens 0 [-1] tokens where
  indent_le := by decide
  colon_eq c t k hposition hcolumn := by
    simp [colon, candidate?, forget, openBlock?, addPast, add, hposition, hcolumn,
      insertIdx_length, Cursor.skip]

/-- The lexer comes to the start of a line, with what it read before. -/
def AtLine (s : Lexer) (tokens : List Token) (indent : Int) (outer : List Int)
    (rest : List Char) : Prop :=
  ∃ c, toToken (s.cursor.rest.length + 1) s = ⟨c, tokens, indent, outer, 0, true, []⟩ ∧
    c.rest = rest ∧ c.column = 0

/-- A colon with a space behind it separates a key from its value. -/
theorem token_colon {s : Lexer} {more : List Char} (hrest : s.cursor.rest = ':' :: ' ' :: more)
    (hdepth : s.depth = 0) : s.token ':' = s.colon := by
  have hsecond : endsToken s.cursor.second? = true := by
    rw [Cursor.second?, hrest]
    rfl
  have hdash : s.cursor.atMarker '-' = false := Cursor.atMarker_eq_false hrest (by decide)
  have hdot : s.cursor.atMarker '.' = false := Cursor.atMarker_eq_false hrest (by decide)
  simp [token, hdash, hdot, hdepth, hsecond]

/-- The lexer steps over a candidate and the colon that makes it a key. -/
theorem run_colon {c : Cursor} {tokens opened : List Token} {indent : Int} {outer : List Int}
    {t : Token} {k : Candidate} {more : List Char} (fuel : Nat)
    (hopens : Opens tokens indent outer opened) (hposition : k.position = tokens.length)
    (hcolumn : k.column = 0) (hline : k.line = c.line) (hindex : c.index - k.index ≤ 1024)
    (hrest : c.rest = ':' :: ' ' :: more) :
    run (fuel + 1) ⟨c, tokens ++ [t], indent, outer, 0, false, [(0, k)]⟩ =
      run fuel ⟨c.step, opened ++ [.key, t, .value], 0, [-1], 0, false, []⟩ := by
  have hready : toToken (c.rest.length + 1)
      ⟨c, tokens ++ [t], indent, outer, 0, false, [(0, k)]⟩ =
        ⟨c, tokens ++ [t], indent, outer, 0, false, [(0, k)]⟩ := by
    refine toToken_eq_self _ fun ch hch => ?_
    rw [Cursor.next?, hrest] at hch
    cases hch
    decide
  have hfresh : ∀ e ∈ [(0, k)],
      isStale ⟨c, tokens ++ [t], indent, outer, 0, false, [(0, k)]⟩ e.2 = false := by
    simpa [isStale, hline] using hindex
  have hindent : indent ≤ (c.column : Int) :=
    Int.le_trans hopens.indent_le (Int.natCast_nonneg _)
  rw [run_succ fuel hready hfresh hindent (by rw [Cursor.next?, hrest]; rfl),
    token_colon hrest rfl, hopens.colon_eq c t k hposition hcolumn]
  rfl

/-- A key and its colon are read as such. -/
theorem run_key {s : Lexer} {tokens opened : List Token} {indent : Int} {outer : List Int}
    {cs more : List Char} (h : PlainWord cs) (hshort : cs.length ≤ 1024)
    (hopens : Opens tokens indent outer opened)
    (hline : AtLine s tokens indent outer (cs ++ ':' :: ' ' :: more)) :
    ∃ c, c.rest = ' ' :: more ∧ ∀ fuel, run (fuel + 2) s =
      run fuel ⟨c, opened ++ [.key, .scalar (String.ofList cs) true, .value], 0, [-1], 0, false,
        []⟩ := by
  obtain ⟨c, hready, hrest, hcolumn⟩ := hline
  have hskip := Cursor.skip_line hrest fun ch hch =>
    ⟨isBreak_eq_false (h.solid hch), by rintro rfl; cases h.solid hch⟩
  have hindent : indent ≤ (c.column : Int) := by simpa [hcolumn] using hopens.indent_le
  refine ⟨(c.skip cs.length).step, by rw [hskip]; rfl, fun fuel => ?_⟩
  rw [run_plain (fuel + 1) h hready hrest (by decide) (by decide) rfl rfl hindent,
    plain_key h hrest]
  exact run_colon fuel hopens rfl hcolumn (by rw [hskip]) (by rw [hskip]; simpa using hshort)
    (by rw [hskip])

/-- Behind a key, the text up to the end of the line is read as the token. -/
def ReadsAs (cs : List Char) (t : Token) : Prop :=
  ∀ (c : Cursor) (more : List Char) (tokens : List Token), c.rest = ' ' :: cs ++ '\n' :: more →
    StartsLine more → ∃ s, AtLine s (tokens ++ [t]) 0 [-1] more ∧
      ∀ fuel, run (fuel + 1) ⟨c, tokens, 0, [-1], 0, false, []⟩ = run fuel s

/-- Behind the value of a line the lexer comes to the next line. -/
theorem atLine_of_lineFeed {c : Cursor} {more : List Char} (tokens : List Token)
    (hrest : c.rest = '\n' :: more) (hmore : StartsLine more) :
    AtLine ⟨c.step, tokens, 0, [-1], 0, true, []⟩ tokens 0 [-1] more := by
  have hstep : c.step = ⟨more, c.index + 1, c.line + 1, 0⟩ := by
    simp [Cursor.step, hrest, isBreak]
  rw [hstep]
  exact ⟨_, toToken_eq_self _ hmore.solid, rfl, rfl⟩

/-- The same where the line feed is still to be passed. -/
theorem atLine_before_lineFeed {c : Cursor} {more : List Char} (tokens : List Token)
    (hrest : c.rest = '\n' :: more) (hmore : StartsLine more) :
    AtLine ⟨c, tokens, 0, [-1], 0, false, []⟩ tokens 0 [-1] more := by
  obtain ⟨c', hready, hc'⟩ := atLine_of_lineFeed tokens hrest hmore
  refine ⟨c', ?_, hc'⟩
  have hspaces : c.skipSpaces = c := by
    refine Cursor.skipWhile_eq_self fun ch hch => ?_
    rw [Cursor.next?, hrest] at hch
    cases hch
    rfl
  have hbreak : c.break? = some ('\n', c.step) := by
    simp [Cursor.break?, Cursor.next?, hrest, isBreak]
  have hnumber : (c.next? == some '#') = false := by simp [Cursor.next?, hrest]
  rw [toToken, ← hready, Cursor.rest_step, hrest]
  simp [hspaces, hbreak, hnumber]

theorem readsAs_plain {cs : List Char} (h : PlainWord cs) :
    ReadsAs cs (.scalar (String.ofList cs) true) := by
  intro c more tokens hrest hmore
  have hstep : c.step.rest = cs ++ '\n' :: more := by simp [Cursor.rest_step, hrest]
  have hready : toToken (c.rest.length + 1) ⟨c, tokens, 0, [-1], 0, false, []⟩ =
      ⟨c.step, tokens, 0, [-1], 0, false, []⟩ :=
    toToken_space _ hrest (h.starts _)
  have hskip : (c.step.skip cs.length).rest = '\n' :: more := by
    simp [Cursor.rest_skip, hstep]
  refine ⟨_, atLine_of_lineFeed _ hskip hmore, fun fuel => ?_⟩
  rw [run_plain fuel h hready hstep (by decide) (by decide) rfl rfl (Int.natCast_nonneg _)]
  simp [plain, saveCandidate, bind, Except.bind, add,
    plainScalar_value h (by decide : 0 < 1) hstep hmore]

/-- A quote starts a quoted scalar. -/
theorem token_quote {s : Lexer} {ch : Char} {rest : List Char} (hch : ch = '\'' ∨ ch = '"')
    (hrest : s.cursor.rest = ch :: rest) : s.token ch = s.keyLike quoted := by
  have hdash : s.cursor.atMarker '-' = false :=
    Cursor.atMarker_eq_false hrest (by rcases hch with rfl | rfl <;> decide)
  have hdot : s.cursor.atMarker '.' = false :=
    Cursor.atMarker_eq_false hrest (by rcases hch with rfl | rfl <;> decide)
  rcases hch with rfl | rfl <;> simp [token, hdash, hdot]

theorem readsAs_quoted {cs tail : List Char} {quote : Char} {s : String}
    (hquote : quote = '\'' ∨ quote = '"') (hcs : cs = quote :: tail)
    (hread : ∀ {c : Cursor} {more : List Char}, more.head? ≠ some '\'' → c.rest = cs ++ more →
      ∃ c', quotedScalar c = .ok (s.toList, c') ∧ c'.rest = more) :
    ReadsAs cs (.scalar s false) := by
  intro c more tokens hrest hmore
  have hstep : c.step.rest = cs ++ '\n' :: more := by simp [Cursor.rest_step, hrest]
  have hstart : ∀ ch ∈ (cs ++ '\n' :: more).head?, isSolid ch = true ∧ ch ≠ '#' := by
    intro ch hch
    rw [hcs] at hch
    cases hch
    rcases hquote with rfl | rfl <;> decide
  have hready : toToken (c.rest.length + 1) ⟨c, tokens, 0, [-1], 0, false, []⟩ =
      ⟨c.step, tokens, 0, [-1], 0, false, []⟩ := toToken_space _ hrest hstart
  obtain ⟨c', hquoted, hc'⟩ := hread (by simp) hstep
  refine ⟨_, atLine_before_lineFeed _ hc' hmore, fun fuel => ?_⟩
  rw [hcs] at hstep
  rw [run_succ fuel hready (by simp) (Int.natCast_nonneg _) (by simp [Cursor.next?, hstep]; rfl),
    token_quote hquote hstep]
  simp [keyLike, saveCandidate, quoted, bind, Except.bind, add, hquoted]

end Lexer

/-! ## Lines of a mapping -/

theorem standsPlain_iff {s : String} :
    standsPlain s = true ↔ fitsPlain s.toList = true ∧ Tag.ofPlain s = .text := by
  simp [standsPlain]

/-- A value that stands on the line of its key. -/
inductive LineValue where
  | bool (b : Bool)
  | text (s : String) (gapless : Gapless s.toList)

namespace LineValue

/-- The value itself. -/
def value : LineValue → Value
  | .bool b => .bool b
  | .text s _ => .text s

/-- Its text without quotes. -/
def content : LineValue → String
  | .bool b => if b then "true" else "false"
  | .text s _ => s

/-- It is written without quotes. -/
def isPlain : LineValue → Bool
  | .bool _ => true
  | .text s _ => standsPlain s

/-- What it is. -/
def tag : LineValue → Tag
  | .bool _ => .bool
  | .text _ _ => .text

/-- The token that is read where it is written. -/
def token (v : LineValue) : Token :=
  .scalar v.content v.isPlain

theorem plainWord_bool (b : Bool) : PlainWord (if b then "true" else "false").toList where
  fits := by cases b <;> decide
  gapless := by cases b <;> decide

theorem readsAs_token (v : LineValue) {indent : Nat} (column : Nat) (hindent : 0 < indent) :
    Lexer.ReadsAs (scalarText false indent column v.value) v.token := by
  cases v with
  | bool b =>
    have hreads := Lexer.readsAs_plain (plainWord_bool b)
    rwa [String.ofList_toList] at hreads
  | text s gapless =>
    cases hplain : standsPlain s with
    | true =>
      have htext : scalarText false indent column (.text s) = s.toList :=
        textScalar_plain false indent column gapless hplain
      have htoken : token (.text s gapless) = .scalar s true := congrArg (Token.scalar s) hplain
      have hreads := Lexer.readsAs_plain ⟨(standsPlain_iff.1 hplain).1, gapless⟩
      rw [value, htext, htoken]
      rwa [String.ofList_toList] at hreads
    | false =>
      have htoken : token (.text s gapless) = .scalar s false := congrArg (Token.scalar s) hplain
      obtain ⟨quote, tail, hquote, hcs, hread⟩ := textScalar_quoted column hindent gapless hplain
      rw [htoken]
      exact Lexer.readsAs_quoted hquote hcs hread

end LineValue

/-- An entry that is written on one line. -/
structure Line where
  key : String
  value : LineValue
  word : PlainWord key.toList
  isText : Tag.ofPlain key = .text
  short : key.length ≤ 1024

namespace Line

def entry (l : Line) : Value × Value :=
  (.text l.key, l.value.value)

/-- The line without its end. -/
def written (l : Line) : List Char :=
  l.key.toList ++ ':' :: ' ' :: scalarText false 2 (l.key.toList.length + 2) l.value.value

def tokens (l : Line) : List Token :=
  [.key, .scalar l.key true, .value, l.value.token]

/-- The lines one after the other. -/
def text (lines : List Line) : List Char :=
  lines.flatMap fun l => l.written ++ ['\n']

theorem startsLine_text (lines : List Line) : StartsLine (text lines) := by
  cases lines with
  | nil => exact ⟨by simp [text], rfl⟩
  | cons l lines =>
    have hcons : text (l :: lines) = l.key.toList ++ ':' :: (' ' ::
        scalarText false 2 (l.key.toList.length + 2) l.value.value ++ '\n' :: text lines) := by
      simp [text, written]
    rw [hcons]
    exact ⟨l.word.starts _, l.word.atDocumentMarker_eq_false rfl (by decide) (by decide)⟩

end Line

namespace Lexer

/-- A line is read as an entry of the mapping. -/
theorem run_line {s : Lexer} {tokens opened : List Token} {indent : Int} {outer : List Int}
    {more : List Char} (l : Line) (hopens : Opens tokens indent outer opened)
    (hmore : StartsLine more) (hline : AtLine s tokens indent outer (l.written ++ '\n' :: more)) :
    ∃ s', AtLine s' (opened ++ l.tokens) 0 [-1] more ∧ ∀ fuel, run (fuel + 3) s = run fuel s' := by
  rw [Line.written, List.append_assoc] at hline
  obtain ⟨c, hrest, hkey⟩ := run_key l.word l.short hopens hline
  obtain ⟨s', hline', hvalue⟩ := l.value.readsAs_token (l.key.toList.length + 2) (by decide) _ _
    (opened ++ [.key, .scalar (String.ofList l.key.toList) true, .value]) hrest hmore
  refine ⟨s', by simpa [Line.tokens] using hline', fun fuel => ?_⟩
  rw [hkey (fuel + 1), hvalue]

/-- At the end of the text the mapping ends. -/
theorem run_end {s : Lexer} {tokens : List Token} (fuel : Nat)
    (hline : AtLine s tokens 0 [-1] []) : run (fuel + 1) s = .ok (tokens ++ [.blockEnd]) := by
  obtain ⟨c, hready, hrest, hcolumn⟩ := hline
  rw [run, hready, dropStale_of_fresh (by simp)]
  simp [bind, Except.bind, Cursor.next?, hrest, hcolumn, outermost, unwind, closing,
    dropCandidate, candidate?]

theorem run_lines {s : Lexer} {tokens : List Token} {fuel : Nat} (lines : List Line)
    (hfuel : 3 * lines.length < fuel) (hline : AtLine s tokens 0 [-1] (Line.text lines)) :
    run fuel s = .ok (tokens ++ lines.flatMap Line.tokens ++ [.blockEnd]) := by
  induction lines generalizing s tokens fuel with
  | nil =>
    obtain ⟨fuel, rfl⟩ := Nat.exists_eq_succ_of_ne_zero (Nat.ne_of_gt hfuel)
    simpa using run_end fuel hline
  | cons l lines ih =>
    have hlength : (l :: lines).length = lines.length + 1 := rfl
    obtain ⟨fuel, rfl⟩ : ∃ n, fuel = n + 3 := ⟨fuel - 3, by omega⟩
    have htext : Line.text (l :: lines) = l.written ++ '\n' :: Line.text lines := by
      simp [Line.text]
    rw [htext] at hline
    obtain ⟨s', hline', hrun⟩ := run_line l (opens_next tokens) (Line.startsLine_text lines) hline
    rw [hrun, ih (by omega) hline']
    simp

end Lexer

/-! ## Tokens of a written mapping -/

theorem isAllowed_of_isOrdinary {c : Char} (h : isOrdinary c = true) : isAllowed c = true := by
  rcases isOrdinary_iff.1 h with rfl | h
  · rfl
  · simp [isAllowed, h]

namespace LineValue

theorem isOrdinary_scalarText (v : LineValue) (indent column : Nat) :
    ∀ c ∈ scalarText false indent column v.value, isOrdinary c = true := by
  cases v with
  | bool b => exact fun c hc => isOrdinary_of_isSolid ((plainWord_bool b).solid hc)
  | text s gapless => exact isOrdinary_textScalar gapless

end LineValue

namespace Line

theorem isOrdinary_text (lines : List Line) : ∀ c ∈ text lines, isOrdinary c = true := by
  intro c hc
  obtain ⟨l, -, hc⟩ := List.mem_flatMap.1 hc
  simp only [written, List.mem_append, List.mem_cons, List.not_mem_nil, or_false] at hc
  rcases hc with (hc | rfl | rfl | hc) | rfl
  · exact isOrdinary_of_isSolid (l.word.solid hc)
  · rfl
  · rfl
  · exact l.value.isOrdinary_scalarText _ _ c hc
  · rfl

theorem length_text (lines : List Line) : 3 * lines.length ≤ (text lines).length := by
  induction lines with
  | nil => exact Nat.le_refl 0
  | cons l lines ih =>
    have htext : (text (l :: lines)).length = l.written.length + 1 + (text lines).length := by
      rw [text, List.flatMap_cons, List.length_append, List.length_append]
      rfl
    have hwritten : 2 ≤ l.written.length := by
      rw [written, List.length_append, List.length_cons, List.length_cons]
      omega
    rw [htext, List.length_cons]
    omega

/-- The tokens of a mapping. -/
theorem tokens_text {lines : List Line} (h : lines ≠ []) :
    Yaml.tokens (String.ofList (text lines)) =
      .ok (.mappingStart :: (lines.flatMap tokens ++ [.blockEnd])) := by
  obtain ⟨l, lines, rfl⟩ := List.exists_cons_of_ne_nil h
  have hallowed : (text (l :: lines)).all isAllowed = true :=
    List.all_eq_true.2 fun c hc => isAllowed_of_isOrdinary (isOrdinary_text _ c hc)
  have hsolid := (startsLine_text (l :: lines)).solid
  have hmark : (Cursor.next? ⟨text (l :: lines), 0, 0, 0⟩ == some '\ufeff') = false :=
    beq_eq_false_iff_ne.2 fun heq => absurd (hsolid _ heq).1 (by decide)
  have hfirst : Lexer.AtLine ⟨⟨text (l :: lines), 0, 0, 0⟩, [], -1, [], 0, true, []⟩ [] (-1) []
      (l.written ++ '\n' :: text lines) :=
    ⟨_, Lexer.toToken_eq_self _ hsolid, by simp [text], rfl⟩
  obtain ⟨s, hline, hrun⟩ := Lexer.run_line l Lexer.opens_first (startsLine_text lines) hfirst
  have hlength := length_text (l :: lines)
  rw [List.length_cons] at hlength
  obtain ⟨n, hn⟩ : ∃ n, (text (l :: lines)).length + 1 = n + 3 :=
    ⟨(text (l :: lines)).length - 2, by omega⟩
  rw [Yaml.tokens, String.toList_ofList, hallowed]
  simp only [hmark, Bool.not_true, Bool.false_eq_true, if_false, hn, hrun]
  rw [Lexer.run_lines lines (by omega) hline]
  simp

/-! ## Nodes of a written mapping -/

/-- The nodes of key and value. -/
def node (l : Line) : Node × Node :=
  (.scalar .text l.key, .scalar l.value.tag l.value.content)

end Line

namespace Node

/-- A value is found to be what it is. -/
theorem scalar_line (v : LineValue) :
    Properties.scalar {} v.content v.isPlain = .scalar v.tag v.content := by
  cases v with
  | bool b => cases b <;> rfl
  | text s gapless =>
    cases hplain : standsPlain s with
    | true =>
      have htag := (standsPlain_iff.1 hplain).2
      simp [Properties.scalar, Properties.name, LineValue.content, LineValue.isPlain,
        LineValue.tag, hplain, htag]
    | false =>
      simp [Properties.scalar, Properties.name, LineValue.content, LineValue.isPlain,
        LineValue.tag, hplain]

theorem nodeUnless_scalar {stops : List Token} {inBlock flat isPlain : Bool} {s : String}
    (fuel : Nat) (rest : List Token) (anchors : List String) (handles : List (String × String))
    (hstops : .scalar s isPlain ∉ stops) :
    nodeUnless stops inBlock flat (fuel + 2) ⟨.scalar s isPlain :: rest, anchors, handles⟩ =
      .ok (Properties.scalar {} s isPlain, ⟨rest, anchors, handles⟩) := by
  simp [nodeUnless, node, Feed.at?, Feed.next?, hstops, properties, writtenAnchor, writtenTag,
    bind, Except.bind, Feed.step]

theorem blockEntries_lines {fuel : Nat} (lines : List Line) (hfuel : lines.length + 3 ≤ fuel)
    (anchors : List String) (handles : List (String × String)) :
    blockEntries fuel ⟨lines.flatMap Line.tokens ++ [.blockEnd], anchors, handles⟩ =
      .ok (lines.map Line.node, ⟨[], anchors, handles⟩) := by
  induction lines generalizing fuel with
  | nil =>
    obtain ⟨fuel, rfl⟩ : ∃ n, fuel = n + 1 := ⟨fuel - 1, by omega⟩
    simp [blockEntries, Feed.next?, Feed.pass, Feed.step, bind, Except.bind]
  | cons l lines ih =>
    have hlength : (l :: lines).length = lines.length + 1 := rfl
    obtain ⟨fuel, rfl⟩ : ∃ n, fuel = n + 3 := ⟨fuel - 3, by omega⟩
    have htag : Properties.scalar {} l.key true = .scalar .text l.key := by
      simp [Properties.scalar, Properties.name, l.isText]
    have htokens : (l :: lines).flatMap Line.tokens ++ [.blockEnd] =
        .key :: .scalar l.key true :: .value :: .scalar l.value.content l.value.isPlain ::
          (lines.flatMap Line.tokens ++ [.blockEnd]) := rfl
    have hentries := @ih (fuel + 2) (by omega)
    rw [htokens, blockEntries]
    simp [Feed.next?, Feed.step, bind, Except.bind, nodeUnless_scalar, hentries, Line.node, htag,
      scalar_line]

theorem node_lines {fuel : Nat} (lines : List Line) (hfuel : lines.length + 4 ≤ fuel)
    (handles : List (String × String)) :
    node true false fuel
      ⟨.mappingStart :: (lines.flatMap Line.tokens ++ [.blockEnd]), [], handles⟩ =
        .ok (.mapping .mapping (lines.map Line.node), ⟨[], [], handles⟩) := by
  obtain ⟨fuel, rfl⟩ : ∃ n, fuel = n + 1 := ⟨fuel - 1, by omega⟩
  rw [node]
  simp [Feed.next?, Feed.step, properties, writtenAnchor, writtenTag, bind, Except.bind,
    blockEntries_lines lines (by omega : lines.length + 3 ≤ fuel), Properties.name,
    Properties.collectionTag]

/-- The node of a written mapping. -/
theorem ofTokens_lines (lines : List Line) :
    ofTokens (.mappingStart :: (lines.flatMap Line.tokens ++ [.blockEnd])) =
      .ok (some (.mapping .mapping (lines.map Line.node))) := by
  have hlength : lines.length ≤ (lines.flatMap Line.tokens).length := by
    induction lines with
    | nil => exact Nat.le_refl 0
    | cons l lines ih =>
      rw [List.flatMap_cons, List.length_append, List.length_cons]
      have htokens : l.tokens.length = 4 := rfl
      omega
  have hnode := node_lines lines (show lines.length + 4 ≤
    4 * (Token.mappingStart :: (lines.flatMap Line.tokens ++ [.blockEnd])).length + 8 by
      rw [List.length_cons, List.length_append]; omega) usualHandles
  simp only [ofTokens, bind, Except.bind, hnode, List.all_nil, if_true]

/-! ## The value of a written mapping -/

theorem scalarOf_line (v : LineValue) (fuel : Nat) :
    scalarOf [] (fuel + 1) (.scalar v.tag v.content) = .ok v.value := by
  cases v with
  | bool b => cases b <;> rfl
  | text s gapless => rfl

theorem meet_line (v : LineValue) (fuel : Nat) :
    meet [] (fuel + 1) (.scalar v.tag v.content) = .ok [] := by
  have hcollection : (resolve [] (.scalar v.tag v.content)).isCollection = false := by
    cases v <;> rfl
  simp [meet, hcollection, scalarOf_line, bind, Except.bind]

theorem anchors_lines (lines : List Line) :
    anchors (.mapping .mapping (lines.map Line.node)) = [] := by
  rw [anchors]
  induction lines with
  | nil => rfl
  | cons l lines ih => simpa [anchors.entryAnchors, Line.node, anchors] using ih

/-- No key of a line takes entries over. -/
theorem merged_lines (lines : List Line) (fuel : Nat) (opened : List String) :
    merged [] (fuel + 1) opened (lines.map Line.node) = .ok (lines.map Line.node) := by
  have hkey : ∀ l : Line, isMergeKey [] l.node.1 = false := fun _ => rfl
  simp [merged, List.filter_map, Function.comp_def, hkey, bind, Except.bind, pure, Except.pure]

theorem inside_lines (lines : List Line) (fuel : Nat) :
    inside [] (fuel + 1) (.mapping .mapping (lines.map Line.node)) = .ok [] := by
  have hmet : (lines.map Line.node).mapM (fun e => do
      let _ ← keyOf [] (fuel + 1) e.1
      meet [] (fuel + 1) e.2) = .ok (lines.map fun _ => []) := by
    induction lines with
    | nil => rfl
    | cons l lines ih =>
      have hkey : keyOf [] (fuel + 1) l.node.1 = .ok (.text l.key) := rfl
      have hvalue : meet [] (fuel + 1) l.node.2 = .ok [] := meet_line l.value fuel
      rw [List.map_cons, List.mapM_cons, ih, hkey]
      simp [hvalue, bind, Except.bind, pure, Except.pure]
  have hresolve : resolve [] (.mapping .mapping (lines.map Line.node)) =
      .mapping .mapping (lines.map Line.node) := rfl
  simp only [inside, hresolve, BEq.rfl, Bool.true_or, if_true, merged_lines]
  change (List.mapM _ _ >>= fun met : List (List Node) => Except.ok met.flatten) = _
  rw [hmet]
  simp [bind, Except.bind]

theorem toValue_lines (lines : List Line) (size fuel : Nat) :
    toValue [] (size + 1) (fuel + 2) [] (.mapping .mapping (lines.map Line.node)) =
      Value.ofEntries (lines.map Line.entry) := by
  have hvalue : ∀ v : LineValue, toValue [] (size + 1) (fuel + 1) [] (.scalar v.tag v.content) =
      v.value := by
    intro v
    simp [toValue, name?, resolve, bare, scalarOf_line, Except.toOption]
  have hkey : ∀ k : String, keyOf [] (size + 1) (.scalar .text k) = .ok (.text k) := fun _ => rfl
  have hentry : Line.entry = fun l => (.text l.key, l.value.value) := rfl
  rw [toValue, hentry]
  simp [name?, resolve, bare, merged_lines, Function.comp_def, Line.node, hkey, hvalue]

theorem value_lines (lines : List Line) :
    value (.mapping .mapping (lines.map Line.node)) =
      .ok (Value.ofEntries (lines.map Line.entry)) := by
  obtain ⟨n, hsize⟩ : ∃ n, size (.mapping .mapping (lines.map Line.node)) = n + 1 :=
    ⟨_, Nat.add_comm _ _⟩
  have hmeet : meet [] (n + 2) (.mapping .mapping (lines.map Line.node)) =
      .ok [.mapping .mapping (lines.map Line.node)] := rfl
  have hcheck : check [] (n + 2) (n + 2) [] [.mapping .mapping (lines.map Line.node)] =
      .ok () := by
    rw [check, inside_lines]
    rfl
  simp only [value, anchors_lines, hsize, hmeet, hcheck, bind, Except.bind, List.length_nil,
    Nat.zero_add, Nat.one_mul, toValue_lines]

end Node

/-! ## Written and read back -/

namespace Line

/-- The lines in the order of their keys. -/
def sorted (lines : List Line) : List Line :=
  lines.mergeSort fun a b => keyLe a.entry b.entry

theorem sorted_perm (lines : List Line) : (sorted lines).Perm lines :=
  List.mergeSort_perm _ _

theorem sorted_ne_nil {lines : List Line} (h : lines ≠ []) : sorted lines ≠ [] :=
  fun hnil => h (hnil ▸ sorted_perm lines).symm.eq_nil

theorem sortEntries_lines (lines : List Line) :
    sortEntries (lines.map entry) = lines.map entry := by
  induction lines with
  | nil => rfl
  | cons l lines ih =>
    have hvalue : sortKeys l.value.value = l.value.value := by
      cases l.value <;> simp [LineValue.value, sortKeys]
    rw [List.map_cons, entry, sortEntries, hvalue, ih]

theorem sortKeys_lines (lines : List Line) :
    sortKeys (.object (lines.map entry)) = .object ((sorted lines).map entry) := by
  have hsorted : (sorted lines).map entry = (lines.map entry).mergeSort keyLe :=
    List.map_mergeSort fun _ _ _ _ => rfl
  rw [sortKeys, sortEntries_lines, hsorted]

theorem entryTexts_lines (lines : List Line) :
    entryTexts 0 (lines.map entry) = lines.map written := by
  induction lines with
  | nil => rfl
  | cons l lines ih =>
    have hplain := standsPlain_iff.2 ⟨l.word.fits, l.isText⟩
    have hkey : scalarText true 0 0 (.text l.key) = l.key.toList :=
      textScalar_plain true 0 0 l.word.gapless hplain
    have hvalue : ∀ column, behindKey 0 column l.value.value =
        ' ' :: scalarText false 2 (column + 1) l.value.value := by
      intro column
      cases l.value <;> simp [LineValue.value, behindKey]
    rw [List.map_cons, List.map_cons, entry, entryTexts, hkey, hvalue, ih, written, Nat.zero_add]

theorem joinLines_lines (l : Line) (lines : List Line) :
    joinLines 0 ((l :: lines).map written) ++ ['\n'] = text (l :: lines) := by
  induction lines generalizing l with
  | nil => simp [joinLines, text]
  | cons l' lines ih =>
    have hjoin : joinLines 0 ((l :: l' :: lines).map written) =
        l.written ++ '\n' :: joinLines 0 ((l' :: lines).map written) := by
      simp [joinLines, newLine]
    rw [hjoin, List.append_assoc, List.cons_append, ih l']
    simp [text]

theorem print_lines {lines : List Line} (h : lines ≠ []) :
    Yaml.print (lines.map entry) = String.ofList (text (sorted lines)) := by
  obtain ⟨l, rest, hsorted⟩ := List.exists_cons_of_ne_nil (sorted_ne_nil h)
  rw [print, sortKeys_lines, hsorted, ← joinLines_lines, ← entryTexts_lines]
  rfl

theorem distinctKeys_lines {lines : List Line} (h : (lines.map key).Nodup) :
    Value.DistinctKeys (lines.map entry) := by
  refine List.pairwise_map.2 ((List.pairwise_map.1 h).imp fun hne => ?_)
  exact Bool.eq_false_iff.2 fun hsame => hne (Value.text.inj (Value.sameKey_text.1 hsame))

theorem read_text {lines : List Line} (hne : lines ≠ []) (h : (lines.map key).Nodup) :
    read (String.ofList (text lines)) = .ok (.object (lines.map entry)) := by
  rw [read, tokens_text hne]
  simp only [bind, Except.bind, Node.ofTokens_lines, Node.value_lines,
    Value.ofEntries_eq_object (distinctKeys_lines h)]

/-- A written mapping is read back with its keys in order. -/
theorem read_print {lines : List Line} (hne : lines ≠ []) (h : (lines.map key).Nodup) :
    read (Yaml.print (lines.map entry)) = .ok (.object ((sorted lines).map entry)) := by
  rw [print_lines hne]
  exact read_text (sorted_ne_nil hne) (((sorted_perm lines).map key).nodup_iff.2 h)

end Line

end Yaml

end JsonShape
