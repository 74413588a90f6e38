import Mathlib.Data.List.SplitBy
import JsonShape.Proofs.Binding
import JsonShape.Proofs.Handles

/-!
# Words of a key

An identifier is made in one pass over its key, with a flag for whether the next letter opens a
word. Here the key is cut up first. `keyParts` gives its words, which are the longest runs of
letters, and its ASCII digits, in order; all other characters only separate. The identifier is then
the parts one after the other, each word with the full upper-case form of its first letter and each
digit as it is (`camelCase_eq_flatMap_keyParts`).

A key can be cut wherever no two letters meet, and its parts are those of the pieces
(`keyParts_append`). So separators and digits cut the identifier as well, and what separates the
words does not show in it. Whether two keys of an object become one identifier, and which are
reported, is decided by the parts of its keys alone (`identifierOf_wordwise`).
-/

namespace JsonShape

open Text

/-! ## Parts -/

/-- What an identifier keeps of a key : a word, which is made of letters, or a digit. -/
inductive KeyPart where
  | word (first : Char) (rest : List Char) (letters : (first :: rest).all isLetter = true)
  | digit (d : Char) (ascii : isAsciiDigit d = true)

/-- The part that a run of characters is, if it is one. -/
def KeyPart.ofRun? : List Char → Option KeyPart
  | [] => none
  | c :: rest =>
    if letters : (c :: rest).all isLetter = true then some (.word c rest letters)
    else if ascii : isAsciiDigit c = true then some (.digit c ascii)
    else none

/-- The characters of a part in an identifier. -/
def KeyPart.chars : KeyPart → List Char
  | .word first rest _ => upperChar first ++ rest
  | .digit d _ => [d]

/-- The words and digits of a key, in order. The key falls into the longest runs of letters, with
every other character on its own. -/
def keyParts (key : List Char) : List KeyPart :=
  (key.splitBy fun a b => isLetter a && isLetter b).filterMap KeyPart.ofRun?

theorem isLetter_eq_false_of_isAsciiDigit {d : Char} (h : isAsciiDigit d = true) :
    isLetter d = false := by
  refine Bool.eq_false_iff.2 fun hletter => not_stray_of_isLetter hletter ?_
  have hcovers := covers_of_inRanges (Go.isDecimalDigit_of_isAsciiDigit h)
  exact ⟨decimalDigitRanges, by simp [strayClasses], hcovers⟩

/-- A key can be cut where no two letters meet. -/
theorem keyParts_append {x y : List Char}
    (h : ∀ a ∈ x.getLast?, ∀ b ∈ y.head?, (isLetter a && isLetter b) = false) :
    keyParts (x ++ y) = keyParts x ++ keyParts y := by
  rw [keyParts, List.splitBy_append h, List.filterMap_append]
  rfl

theorem keyParts_append_cons (x y : List Char) {c : Char} (hc : isLetter c = false) :
    keyParts (x ++ c :: y) = keyParts x ++ (keyParts [c] ++ keyParts y) := by
  rw [keyParts_append (by simp [hc]), ← List.singleton_append, keyParts_append (by simp [hc])]

/-- A run that is not to be cut is one part, or none. -/
theorem keyParts_run {run : List Char} (hne : run ≠ [])
    (h : run.IsChain fun a b => (isLetter a && isLetter b) = true) :
    keyParts run = (KeyPart.ofRun? run).toList := by
  rw [keyParts, List.splitBy_of_isChain hne h]
  cases hpart : KeyPart.ofRun? run <;> simp [hpart]

theorem keyParts_separator {c : Char} (hc : isLetter c = false) (hdigit : isAsciiDigit c = false) :
    keyParts [c] = [] := by
  rw [keyParts_run (by simp) (List.isChain_singleton c)]
  simp [KeyPart.ofRun?, hc, hdigit]

theorem keyParts_separators_append {cs : List Char}
    (h : ∀ c ∈ cs, isLetter c = false ∧ isAsciiDigit c = false) (y : List Char) :
    keyParts (cs ++ y) = keyParts y := by
  induction cs with
  | nil => rfl
  | cons c cs ih =>
    obtain ⟨hc, hcs⟩ := List.forall_mem_cons.1 h
    have hcut : keyParts (c :: (cs ++ y)) = keyParts [c] ++ keyParts (cs ++ y) :=
      keyParts_append_cons [] (cs ++ y) hc.1
    rw [List.cons_append, hcut, keyParts_separator hc.1 hc.2, ih hcs]
    rfl

/-- Separators, one or more, only cut a key. -/
theorem keyParts_append_separators (x y : List Char) {cs : List Char} (hne : cs ≠ [])
    (h : ∀ c ∈ cs, isLetter c = false ∧ isAsciiDigit c = false) :
    keyParts (x ++ cs ++ y) = keyParts x ++ keyParts y := by
  obtain ⟨c, cs, rfl⟩ := List.exists_cons_of_ne_nil hne
  obtain ⟨hc, hcs⟩ := List.forall_mem_cons.1 h
  rw [List.append_assoc, List.cons_append, keyParts_append_cons _ _ hc.1,
    keyParts_separator hc.1 hc.2, keyParts_separators_append hcs]
  rfl

theorem keyParts_digit {d : Char} (h : isAsciiDigit d = true) : keyParts [d] = [.digit d h] := by
  have hd := isLetter_eq_false_of_isAsciiDigit h
  rw [keyParts_run (by simp) (List.isChain_singleton d)]
  simp [KeyPart.ofRun?, hd, h]

/-- A run of letters is one word. -/
theorem keyParts_letters {c : Char} {rest : List Char} (h : (c :: rest).all isLetter = true) :
    keyParts (c :: rest) = [.word c rest h] := by
  have hchain : (c :: rest).IsChain fun a b => (isLetter a && isLetter b) = true := by
    refine (List.pairwise_of_forall_mem_list fun a ha b hb => ?_).isChain
    rw [List.all_eq_true.1 h a ha, List.all_eq_true.1 h b hb]
    rfl
  rw [keyParts_run (by simp) hchain, KeyPart.ofRun?, dif_pos h]
  rfl

/-- A letter opens a word, which goes on as long as there are letters. -/
theorem keyParts_cons_of_isLetter {c : Char} (hc : isLetter c = true) (rest : List Char) :
    ∃ letters, keyParts (c :: rest) =
      .word c (rest.takeWhile isLetter) letters :: keyParts (rest.dropWhile isLetter) := by
  have hletters : (c :: rest.takeWhile isLetter).all isLetter = true := by
    rw [List.all_cons, hc, List.all_takeWhile]
    rfl
  have hcut : keyParts ((c :: rest.takeWhile isLetter) ++ rest.dropWhile isLetter) =
      keyParts (c :: rest.takeWhile isLetter) ++ keyParts (rest.dropWhile isLetter) := by
    refine keyParts_append fun a _ b hb => ?_
    have hend := List.head?_dropWhile_not isLetter rest
    rw [Option.mem_def.1 hb] at hend
    rw [Bool.and_eq_false_iff]
    exact .inr hend
  refine ⟨hletters, ?_⟩
  rw [List.cons_append, List.takeWhile_append_dropWhile, keyParts_letters hletters] at hcut
  exact hcut

/-! ## The pass over a key -/

/-- Inside a word, letters stand as they are up to its end. -/
theorem camelCase_false (cs : List Char) :
    camelCase false cs = cs.takeWhile isLetter ++ camelCase true (cs.dropWhile isLetter) := by
  induction cs with
  | nil => rfl
  | cons c rest ih =>
    by_cases hc : isLetter c = true
    · rw [camelCase, if_pos hc, ih, List.takeWhile_cons_of_pos hc, List.dropWhile_cons_of_pos hc]
      rfl
    · rw [List.takeWhile_cons_of_neg hc, List.dropWhile_cons_of_neg hc, camelCase, camelCase]
      rw [if_neg hc, if_neg hc]
      rfl

/-- An identifier is the words and digits of its key. -/
theorem camelCase_eq_flatMap_keyParts (cs : List Char) :
    camelCase true cs = (keyParts cs).flatMap KeyPart.chars := by
  -- A word is taken off in one step, so the induction is on the length.
  induction hn : cs.length using Nat.strong_induction_on generalizing cs with
  | _ n ih =>
    subst hn
    cases cs with
    | nil => rfl
    | cons c rest =>
      by_cases hc : isLetter c = true
      · obtain ⟨letters, hparts⟩ := keyParts_cons_of_isLetter hc rest
        have hlength : (rest.dropWhile isLetter).length < (c :: rest).length :=
          Nat.lt_succ_of_le (List.length_dropWhile_le isLetter rest)
        rw [hparts, List.flatMap_cons, ← ih _ hlength _ rfl, camelCase, if_pos hc, camelCase_false]
        exact (List.append_assoc ..).symm
      · have hc := Bool.eq_false_iff.2 hc
        have hparts : keyParts (c :: rest) = keyParts [c] ++ keyParts rest :=
          keyParts_append_cons [] rest hc
        have hrest := ih _ (Nat.lt_succ_self rest.length) rest rfl
        rw [hparts, List.flatMap_append, ← hrest, camelCase, if_neg (by simp [hc])]
        by_cases hdigit : isAsciiDigit c = true
        · rw [if_pos hdigit, keyParts_digit hdigit]
          rfl
        · rw [if_neg hdigit, keyParts_separator hc (Bool.eq_false_iff.2 hdigit)]
          rfl

theorem identifierOf_eq_keyParts (key : String) :
    identifierOf key = String.ofList ((keyParts key.toList).flatMap KeyPart.chars) := by
  rw [identifierOf, camelCase_eq_flatMap_keyParts]

/-- A character that is no letter cuts the identifier. -/
theorem identifierOf_append_singleton (x y : String) {c : Char} (hc : isLetter c = false) :
    identifierOf (x ++ String.singleton c ++ y) =
      identifierOf x ++ String.ofList ((keyParts [c]).flatMap KeyPart.chars) ++ identifierOf y := by
  have hkey : (x ++ String.singleton c ++ y).toList = x.toList ++ c :: y.toList := by
    simp
  rw [identifierOf_eq_keyParts, hkey, keyParts_append_cons _ _ hc]
  simp only [identifierOf_eq_keyParts, List.flatMap_append, String.ofList_append,
    String.append_assoc]

/-! ## Keys that collide -/

/-- The words and digits of a key that is a text. -/
def Value.keyParts? : Value → Option (List KeyPart)
  | .text key => some (keyParts key.toList)
  | _ => none

theorem Value.identifier?_eq_map (key : Value) : key.identifier? =
    key.keyParts?.map fun parts => String.ofList (parts.flatMap KeyPart.chars) := by
  cases key with
  | text k => rw [Value.identifier?, Value.keyParts?, identifierOf_eq_keyParts, Option.map_some]
  | _ => rfl

/-- Keys with the same words and digits, one by one, become the same identifiers. -/
theorem map_identifier?_eq_of_keyParts? {keys keys' : List Value}
    (h : keys.map Value.keyParts? = keys'.map Value.keyParts?) :
    keys.map Value.identifier? = keys'.map Value.identifier? := by
  rw [funext Value.identifier?_eq_map, ← Function.comp_def, ← List.map_map, h, List.map_map]

theorem Value.identifier?_eq_some {key : Value} {name : String}
    (h : key.identifier? = some name) : ∃ k, key = .text k ∧ identifierOf k = name := by
  cases key with
  | text k => exact ⟨k, rfl, Option.some.inj h⟩
  | _ => cases h

/-- The keys seen so far, in the order in which they were seen. -/
def seenKeys (seen : List (String × String)) : List Value :=
  seen.reverse.map fun p => .text p.2

theorem seenKeys_cons_append (name key : String) (seen : List (String × String))
    (keys : List Value) :
    seenKeys ((name, key) :: seen) ++ keys = seenKeys seen ++ .text key :: keys := by
  simp [seenKeys]

/-- The texts stand among the keys at two places, one after the other. -/
structure KeysAt (keys : List Value) (i j : Nat) (a b : String) : Prop where
  before : i < j
  first : keys[i]? = some (.text a)
  second : keys[j]? = some (.text b)

/-- A key that was seen stands before the next key. -/
theorem keysAt_of_seen {seen : List (String × String)} {i : Nat} {a : String}
    (h : (seenKeys seen)[i]? = some (.text a)) (b : String) (rest : List Value) :
    KeysAt (seenKeys seen ++ .text b :: rest) i seen.length a b := by
  have hlength : (seenKeys seen).length = seen.length := by
    rw [seenKeys, List.length_map, List.length_reverse]
  have hi : i < (seenKeys seen).length := (List.getElem?_eq_some_iff.1 h).1
  refine ⟨hlength ▸ hi, ?_, ?_⟩
  · rwa [List.getElem?_append_left hi]
  · rw [← hlength, List.getElem?_append_right (Nat.le_refl _), Nat.sub_self]
    rfl

/-- Where the same names were seen, a name is found in both lists at the same place. -/
theorem exists_place_of_lookup {seen seen' : List (String × String)} {name first : String}
    (hseen : seen.map Prod.fst = seen'.map Prod.fst) (h : seen.lookup name = some first) :
    ∃ (i : Nat) (first' : String), (seenKeys seen)[i]? = some (.text first) ∧
      (seenKeys seen')[i]? = some (.text first') ∧ seen'.lookup name = some first' := by
  obtain ⟨later, earlier, rfl, hlater⟩ := List.lookup_eq_some_iff.1 h
  rw [List.map_append, List.map_cons] at hseen
  obtain ⟨later', more, rfl, hlater', hmore⟩ := List.map_eq_append_iff.1 hseen.symm
  obtain ⟨⟨name', first'⟩, earlier', rfl, hname, hearlier⟩ := List.map_eq_cons_iff.1 hmore
  obtain rfl : name' = name := hname
  have hlength : earlier'.length = earlier.length := by
    simpa using congrArg List.length hearlier
  refine ⟨earlier.length, first', ?_, ?_, List.lookup_eq_some_iff.2 ⟨_, _, rfl, ?_⟩⟩
  · simp [seenKeys]
  · simp [seenKeys, ← hlength]
  · intro p hp
    obtain ⟨q, hq, hpq⟩ : ∃ q ∈ later, q.1 = p.1 := by
      rw [← List.mem_map, ← hlater']
      exact List.mem_map_of_mem hp
    rw [← hpq]
    exact hlater q hq

/-- Keys collide by their identifiers alone : where the keys of two lists become the same
identifiers one by one, a collision in one list is a collision in the other at the same places. -/
theorem keysCollide_of_map_identifier? {seen seen' : List (String × String)}
    {keys keys' : List Value} {a b name : String}
    (hseen : seen.map Prod.fst = seen'.map Prod.fst)
    (hkeys : keys.map Value.identifier? = keys'.map Value.identifier?)
    (h : keyProblem seen keys = some (.keysCollide a b name)) :
    ∃ i j a' b', KeysAt (seenKeys seen ++ keys) i j a b ∧
      KeysAt (seenKeys seen' ++ keys') i j a' b' ∧
      keyProblem seen' keys' = some (.keysCollide a' b' name) := by
  fun_induction keyProblem seen keys generalizing seen' keys' with
  | case1 => cases h
  | case2 seen key rest first hfirst =>
    obtain ⟨head, rest', rfl, hhead, hrest⟩ := List.map_eq_cons_iff.1 hkeys.symm
    obtain ⟨key', rfl, hname⟩ := Value.identifier?_eq_some hhead
    obtain ⟨rfl, rfl, rfl⟩ := Event.keysCollide.inj (Option.some.inj h)
    obtain ⟨i, first', hplace, hplace', hfirst'⟩ := exists_place_of_lookup hseen hfirst
    have hlength : seen'.length = seen.length := by
      simpa using congrArg List.length hseen.symm
    refine ⟨i, seen.length, first', key', keysAt_of_seen hplace _ _, ?_, ?_⟩
    · rw [← hlength]
      exact keysAt_of_seen hplace' _ _
    · rw [keyProblem, hname, hfirst']
  | case3 seen key rest hfirst ih =>
    obtain ⟨head, rest', rfl, hhead, hrest⟩ := List.map_eq_cons_iff.1 hkeys.symm
    obtain ⟨key', rfl, hname⟩ := Value.identifier?_eq_some hhead
    have hfirst' : seen'.lookup (identifierOf key) = none := by
      cases hfound : seen'.lookup (identifierOf key) with
      | none => rfl
      | some first' =>
        obtain ⟨_, _, _, _, hfound'⟩ := exists_place_of_lookup hseen.symm hfound
        cases hfirst.symm.trans hfound'
    have hnames : ((identifierOf key, key) :: seen).map Prod.fst =
        ((identifierOf key, key') :: seen').map Prod.fst := by
      rw [List.map_cons, List.map_cons, hseen]
    obtain ⟨i, j, a', b', hat, hat', hproblem⟩ := ih hnames hrest.symm h
    -- The key moves over to those seen and keeps its place.
    rw [seenKeys_cons_append] at hat hat'
    refine ⟨i, j, a', b', hat, hat', ?_⟩
    rw [keyProblem, hname, hfirst']
    exact hproblem
  | case4 => cases h

namespace Session

/-- Inference reports two keys of an object that become one name, and makes nothing else of the
object. -/
def Collides (o : Options) (s : Session) (entries : List (Value × Value)) (a b name : String) :
    Prop :=
  (infer o (.object entries)).run s =
    (.ok .any, { s with events := s.events ++ [.keysCollide a b name] })

variable {o : Options} {s : Session} {entries : List (Value × Value)}

/-- An object whose keys cannot name fields is given up at once. -/
theorem run_infer_of_keyProblem {problem : Event}
    (h : keyProblem [] (entries.map Prod.fst) = some problem) :
    (infer o (.object entries)).run s =
      (.ok .any, { s with events := s.events ++ [problem] }) := by
  have hempty : entries.isEmpty = false := by
    cases entries with
    | nil => cases h
    | cons entry rest => rfl
  rw [infer, hempty, h]
  rfl

/-- An object whose keys can name fields does not become `any`. -/
theorem infer_ne_any_of_nameable (h : keyProblem [] (entries.map Prod.fst) = none) :
    ((infer o (.object entries)).run s).1 ≠ .ok .any := by
  rw [infer, h]
  split_ifs
  · rintro ⟨⟩
  · change ((inferFields o entries >>= intern).run s).1 ≠ .ok .any
    rcases hfields : (inferFields o entries).run s with ⟨fault | fields, s'⟩
    · rw [run_bind_error hfields]
      rintro ⟨⟩
    · obtain ⟨handle, s'', hintern, -⟩ := intern_returns fields s'
      rw [run_bind_ok hfields, hintern]
      rintro ⟨⟩

theorem collides_iff {a b name : String} : s.Collides o entries a b name ↔
    keyProblem [] (entries.map Prod.fst) = some (.keysCollide a b name) := by
  refine ⟨fun h => ?_, run_infer_of_keyProblem⟩
  rcases hproblem : keyProblem [] (entries.map Prod.fst) with _ | problem
  · exact absurd (congrArg Prod.fst h) (infer_ne_any_of_nameable hproblem)
  · have hevents := congrArg (fun r => r.2.events) ((run_infer_of_keyProblem hproblem).symm.trans h)
    rw [List.singleton_inj.1 (List.append_cancel_left hevents)]

end Session

/-- Identifiers are made word by word. A character that is neither a letter nor an ASCII digit cuts
the identifier in two, and a digit also stands between the two. The identifier of a key is the
concatenation of its longest runs of letters and its digits, each run with its first letter in upper
case. Separators, however many, only cut the sequence of words and digits, and keys with the same
sequence become the same identifier. So they collide in the same way : where the keys of two objects
have, one by one, the same sequences, a collision in one is a collision in the other, at the same
two places and with the same name, whatever else the objects, the options and the sessions hold. -/
theorem identifierOf_wordwise :
    (∀ (x y : String) (c : Char), isLetter c = false → isAsciiDigit c = false →
      identifierOf (x ++ String.singleton c ++ y) = identifierOf x ++ identifierOf y) ∧
    (∀ (x y : String) (d : Char), isAsciiDigit d = true →
      identifierOf (x ++ String.singleton d ++ y) =
        identifierOf x ++ String.singleton d ++ identifierOf y) ∧
    (∀ key, identifierOf key = String.ofList ((keyParts key.toList).flatMap KeyPart.chars)) ∧
    (∀ x separators y : List Char, separators ≠ [] →
      (∀ c ∈ separators, isLetter c = false ∧ isAsciiDigit c = false) →
      keyParts (x ++ separators ++ y) = keyParts x ++ keyParts y) ∧
    (∀ k l : String, keyParts k.toList = keyParts l.toList → identifierOf k = identifierOf l) ∧
    ∀ (o o' : Options) (s s' : Session) (entries other : List (Value × Value)) (a b name : String),
      (entries.map Prod.fst).map Value.keyParts? = (other.map Prod.fst).map Value.keyParts? →
      s.Collides o entries a b name →
      ∃ i j a' b', KeysAt (entries.map Prod.fst) i j a b ∧
        KeysAt (other.map Prod.fst) i j a' b' ∧ s'.Collides o' other a' b' name := by
  refine ⟨fun x y c hc hdigit => ?_, fun x y d hd => ?_, identifierOf_eq_keyParts,
    fun x _ y hne hseparators => keyParts_append_separators x y hne hseparators,
    fun k l hparts => ?_, fun o o' s s' entries other a b name hparts hcollides => ?_⟩
  · rw [identifierOf_append_singleton x y hc, keyParts_separator hc hdigit]
    simp
  · rw [identifierOf_append_singleton x y (isLetter_eq_false_of_isAsciiDigit hd), keyParts_digit hd]
    rfl
  · rw [identifierOf_eq_keyParts, identifierOf_eq_keyParts, hparts]
  · have hnames := map_identifier?_eq_of_keyParts? hparts
    obtain ⟨i, j, a', b', hat, hat', hproblem⟩ :=
      keysCollide_of_map_identifier? rfl hnames (Session.collides_iff.1 hcollides)
    exact ⟨i, j, a', b', hat, hat', Session.collides_iff.2 hproblem⟩

/-- A digit of another script separates, and the sharp s and the ligature have two letters for their
upper-case forms. The keys of an object collide whatever separates their words and digits. -/
theorem identifierOf_wordwise_respelled :
    identifierOf ("straße" ++ String.singleton '٣' ++ "ßig") = "Straße" ++ "SSig" ∧
      identifierOf ("a" ++ String.singleton '1' ++ "ﬁt") = "A" ++ String.singleton '1' ++ "FIt" ∧
      keyParts ("ß".toList ++ ['_', '٣'] ++ "t".toList) = [.word 'ß' [] rfl, .word 't' [] rfl] ∧
      identifierOf "ß_t" = identifierOf "--ß٣t" ∧
      ∃ a b, Session.Collides {} {} [(.text "_ß..1", .null), (.text "ß 1", .null)] a b "SS1" := by
  obtain ⟨hseparator, hdigit, -, hseparators, hsame, hcollides⟩ := identifierOf_wordwise
  have hwords : identifierOf "straße" = "Straße" ∧ identifierOf "ßig" = "SSig" ∧
      identifierOf "a" = "A" ∧ identifierOf "ﬁt" = "FIt" := by
    decide +kernel
  obtain ⟨hstreet, hig, ha, hfit⟩ := hwords
  refine ⟨?_, ?_, ?_, hsame _ _ rfl, ?_⟩
  · rw [hseparator _ _ _ rfl rfl, hstreet, hig]
  · rw [hdigit _ _ _ rfl, ha, hfit]
  · refine hseparators _ _ _ (List.cons_ne_nil _ _) (List.forall_mem_cons.2 ⟨⟨rfl, rfl⟩, ?_⟩)
    exact List.forall_mem_singleton.2 ⟨rfl, rfl⟩
  · obtain ⟨_, _, a, b, -, -, h⟩ := hcollides { optionalFields := true } {} {} {}
      [(.text "ß-1", .null), (.text "ß1", .int 1)] [(.text "_ß..1", .null), (.text "ß 1", .null)]
      "ß-1" "ß1" "SS1" rfl (Session.collides_iff.2 rfl)
    exact ⟨a, b, h⟩

end JsonShape
