import Mathlib.Logic.Relation
import Mathlib.Order.Nat
import JsonShape.Json.Grammar

/-!
# Where a reader of JSON fails

The readers of `Json.Grammar` run on fuel. If strings and atoms take characters (`Consuming`), the
fuel they are given is enough, and what they read is given by equations without it : `tree_eq`,
`items_eq`, `entries_eq` and `stream_eq`.

From these equations it is read off where a reader comes to on its way through the characters
(`Spot`, `Step`). A fault that is not one of the grammar's own arises at a string or an atom that
the reader comes to, and at each such place it is the fault of the whole : `stream_fails_iff`.
-/

namespace JsonShape.Json

/-- The characters from there on. -/
def Opening.rest : Opening → List Char
  | .text rest | .noItems rest | .items rest | .noEntries rest | .entries rest | .atom rest => rest

namespace Dialect

variable {ε α β : Type} {d : Dialect ε α} {cs rest : List Char}

/-- Strings and atoms take characters. -/
structure Consuming (d : Dialect ε α) : Prop where
  text : ∀ {cs s rest}, d.text cs = .ok (s, rest) → rest.length ≤ cs.length
  atom : ∀ {cs v rest}, d.atom cs = .ok (v, rest) → rest.length < cs.length

/-- The reader leaves fewer characters than it was given. -/
def Shrinks (read : List Char → Except ε (β × List Char)) : Prop :=
  ∀ {cs x rest}, read cs = .ok (x, rest) → rest.length < cs.length

/-! ## Next after blanks -/

theorem length_skip_le (d : Dialect ε α) (cs : List Char) : (d.skip cs).length ≤ cs.length :=
  (List.dropWhile_suffix _).length_le

theorem after?_eq_some_iff {c : Char} : d.after? c cs = some rest ↔ d.skip cs = c :: rest := by
  unfold after?
  split
  next hskip => simp [hskip]
  next next rest' hskip =>
    rw [hskip]
    split <;> simp_all

theorem after?_of_skip {c : Char} (h : d.skip cs = c :: rest) : d.after? c cs = some rest :=
  after?_eq_some_iff.2 h

theorem after?_eq_none_iff {c : Char} : d.after? c cs = none ↔ (d.skip cs).head? ≠ some c := by
  unfold after?
  split
  next hskip => simp [hskip]
  next next rest hskip =>
    rw [hskip]
    split <;> simp_all

theorem length_lt_of_after? {c : Char} (h : d.after? c cs = some rest) :
    rest.length < cs.length := by
  have hle := length_skip_le d cs
  rw [after?_eq_some_iff.1 h, List.length_cons] at hle
  omega

section

variable {inner : List Char}

theorem opening_text (h : d.skip cs = '"' :: rest) : d.opening cs = .text rest := by
  simp [opening, after?, h]

theorem opening_noItems (h : d.skip cs = '[' :: inner) (hclose : d.skip inner = ']' :: rest) :
    d.opening cs = .noItems rest := by
  simp [opening, after?, h, hclose]

theorem opening_items (h : d.skip cs = '[' :: inner) (hopen : (d.skip inner).head? ≠ some ']') :
    d.opening cs = .items (d.skip inner) := by
  have hquote : d.after? '"' cs = none := after?_eq_none_iff.2 (by simp [h])
  simp only [opening, hquote, after?_of_skip h, after?_eq_none_iff.2 hopen]

theorem opening_noEntries (h : d.skip cs = '\x7b' :: inner)
    (hclose : d.skip inner = '\x7d' :: rest) : d.opening cs = .noEntries rest := by
  simp [opening, after?, h, hclose]

theorem opening_entries (h : d.skip cs = '\x7b' :: inner)
    (hopen : (d.skip inner).head? ≠ some '\x7d') : d.opening cs = .entries (d.skip inner) := by
  have hquote : d.after? '"' cs = none := after?_eq_none_iff.2 (by simp [h])
  have hbracket : d.after? '[' cs = none := after?_eq_none_iff.2 (by simp [h])
  simp only [opening, hquote, hbracket, after?_of_skip h, after?_eq_none_iff.2 hopen]

theorem opening_atom (h : ∀ c ∈ (d.skip cs).head?, c ∉ ['"', '[', '\x7b']) :
    d.opening cs = .atom (d.skip cs) := by
  have hnone : ∀ c ∈ ['"', '[', '\x7b'], d.after? c cs = none :=
    fun c hc => after?_eq_none_iff.2 fun hhead => h c hhead hc
  simp only [List.forall_mem_cons] at hnone
  simp only [opening, hnone]

theorem joint_close {bracket : Char} (h : d.skip cs = bracket :: rest) :
    d.joint bracket cs = .close rest := by
  rw [joint, after?_of_skip h]

theorem joint_comma {b : Char} (h : d.skip cs = ',' :: rest) (hb : b ≠ ',') :
    d.joint b cs = .comma rest := by
  rw [joint, after?_of_skip h, after?_eq_none_iff.2 (by simpa [h] using hb.symm)]

end

/-- Only an atom may stand where the characters start. -/
theorem length_rest_opening_lt {o : Opening} (h : d.opening cs = o)
    (ho : ∀ rest, o ≠ .atom rest) : o.rest.length < cs.length := by
  unfold opening at h
  split at h
  next hquote => exact h ▸ length_lt_of_after? hquote
  next =>
    split at h
    next inner hbracket =>
      have hinner := length_lt_of_after? hbracket
      split at h
      next hclose => exact h ▸ (length_lt_of_after? hclose).trans hinner
      next => exact h ▸ (length_skip_le d inner).trans_lt hinner
    next =>
      split at h
      next inner hbrace =>
        have hinner := length_lt_of_after? hbrace
        split at h
        next hclose => exact h ▸ (length_lt_of_after? hclose).trans hinner
        next => exact h ▸ (length_skip_le d inner).trans_lt hinner
      next => exact absurd h.symm (ho _)

theorem eq_skip_of_opening_eq_atom (h : d.opening cs = .atom rest) : rest = d.skip cs := by
  unfold opening at h
  split at h
  next => cases h
  next =>
    split at h
    next => split at h <;> cases h
    next =>
      split at h
      next => split at h <;> cases h
      next => exact (Opening.atom.inj h).symm

theorem length_lt_of_joint_close {bracket : Char} (h : d.joint bracket cs = .close rest) :
    rest.length < cs.length := by
  unfold joint at h
  split at h
  next hclose =>
    cases h
    exact length_lt_of_after? hclose
  next => split at h <;> cases h

theorem length_lt_of_joint_comma {bracket : Char} (h : d.joint bracket cs = .comma rest) :
    rest.length < cs.length := by
  unfold joint at h
  split at h
  next => cases h
  next =>
    split at h
    next hcomma =>
      cases h
      exact length_lt_of_after? hcomma
    next => cases h

/-! ## Length of what is left -/

theorem shrinks_treeStep (hd : d.Consuming) {items : List Char → Except ε (List α × List Char)}
    {entries : List Char → Except ε (List (String × α) × List Char)} (hitems : Shrinks items)
    (hentries : Shrinks entries) : Shrinks (d.treeStep items entries) := by
  intro cs t rest h
  unfold treeStep at h
  split at h
  next inner hopen =>
    have hlt := length_rest_opening_lt hopen (by simp)
    split at h
    next => cases h
    next htext =>
      cases h
      exact (hd.text htext).trans_lt hlt
  next hopen =>
    cases h
    exact length_rest_opening_lt hopen (by simp)
  next inner hopen =>
    have hlt := length_rest_opening_lt hopen (by simp)
    split at h
    next => cases h
    next hread =>
      cases h
      exact (hitems hread).trans hlt
  next hopen =>
    cases h
    exact length_rest_opening_lt hopen (by simp)
  next inner hopen =>
    have hlt := length_rest_opening_lt hopen (by simp)
    split at h
    next => cases h
    next hread =>
      cases h
      exact (hentries hread).trans hlt
  next hopen =>
    rw [eq_skip_of_opening_eq_atom hopen] at h
    exact (hd.atom h).trans_le (length_skip_le d cs)

theorem shrinks_rowStep {bracket : Char} {one : List Char → Except ε (β × List Char)}
    {more : List Char → Except ε (List β × List Char)} (hone : Shrinks one)
    (hmore : Shrinks more) : Shrinks (d.rowStep bracket one more) := by
  intro cs xs rest h
  unfold rowStep at h
  split at h
  next => cases h
  next x afterOne hread =>
    have hlt := hone hread
    split at h
    next hclose =>
      cases h
      exact (length_lt_of_joint_close hclose).trans hlt
    next next hcomma =>
      have hnext := length_lt_of_joint_comma hcomma
      split at h
      next => cases h
      next hread' =>
        cases h
        exact (hmore hread').trans (hnext.trans hlt)
    next => cases h

theorem shrinks_readName (hd : d.Consuming) : Shrinks d.readName := by
  intro cs name rest h
  unfold readName at h
  split at h
  next => cases h
  next inner hquote =>
    split at h
    next => cases h
    next name' afterName htext =>
      split at h
      next => cases h
      next hcolon =>
        cases h
        have hinner := length_lt_of_after? hquote
        have hname := hd.text htext
        exact (length_lt_of_after? hcolon).trans (hname.trans_lt hinner)

theorem shrinks_entryStep (hd : d.Consuming) {tree : List Char → Except ε (α × List Char)}
    (htree : Shrinks tree) : Shrinks (d.entryStep tree) := by
  intro cs e rest h
  unfold entryStep at h
  split at h
  next => cases h
  next name inner hname =>
    split at h
    next => cases h
    next hread =>
      cases h
      exact (htree hread).trans (shrinks_readName hd hname)

/-- Each reader leaves fewer characters than it was given, whatever its fuel. -/
theorem shrinks_read (hd : d.Consuming) (fuel : Nat) :
    Shrinks (d.readTree fuel) ∧ Shrinks (d.readItems fuel) ∧ Shrinks (d.readEntries fuel) := by
  induction fuel with
  | zero =>
    refine ⟨fun h => ?_, fun h => ?_, fun h => ?_⟩
    · rw [readTree] at h
      cases h
    · rw [readItems] at h
      cases h
    · rw [readEntries] at h
      cases h
  | succ fuel ih =>
    obtain ⟨htree, hitems, hentries⟩ := ih
    refine ⟨fun h => ?_, fun h => ?_, fun h => ?_⟩
    · rw [readTree] at h
      exact shrinks_treeStep hd hitems hentries h
    · rw [readItems] at h
      exact shrinks_rowStep htree hitems h
    · rw [readEntries] at h
      exact shrinks_rowStep (shrinks_entryStep hd htree) hentries h

/-! ## Enough fuel -/

theorem treeStep_congr {items items' : List Char → Except ε (List α × List Char)}
    {entries entries' : List Char → Except ε (List (String × α) × List Char)}
    (hitems : ∀ rest : List Char, rest.length < cs.length → items rest = items' rest)
    (hentries : ∀ rest : List Char, rest.length < cs.length → entries rest = entries' rest) :
    d.treeStep items entries cs = d.treeStep items' entries' cs := by
  unfold treeStep
  split
  next => rfl
  next => rfl
  next inner hopen => rw [hitems inner (length_rest_opening_lt hopen (by simp))]
  next => rfl
  next inner hopen => rw [hentries inner (length_rest_opening_lt hopen (by simp))]
  next => rfl

theorem rowStep_congr {bracket : Char} {one one' : List Char → Except ε (β × List Char)}
    {more more' : List Char → Except ε (List β × List Char)} (hone : one cs = one' cs)
    (hlt : Shrinks one')
    (hmore : ∀ rest : List Char, rest.length < cs.length → more rest = more' rest) :
    d.rowStep bracket one more cs = d.rowStep bracket one' more' cs := by
  unfold rowStep
  rw [hone]
  split
  next => rfl
  next hread =>
    split
    next => rfl
    next hcomma => rw [hmore _ ((length_lt_of_joint_comma hcomma).trans (hlt hread))]
    next => rfl

theorem entryStep_congr (hd : d.Consuming) {tree tree' : List Char → Except ε (α × List Char)}
    (htree : ∀ rest : List Char, rest.length < cs.length → tree rest = tree' rest) :
    d.entryStep tree cs = d.entryStep tree' cs := by
  unfold entryStep
  split
  next => rfl
  next hname => rw [htree _ (shrinks_readName hd hname)]

/-- Two amounts of fuel that are both enough read the same. -/
theorem read_congr_fuel (hd : d.Consuming) (fuel : Nat) : ∀ fuel' : Nat,
    (∀ cs : List Char, 2 * cs.length + 1 ≤ fuel → 2 * cs.length + 1 ≤ fuel' →
      d.readTree fuel cs = d.readTree fuel' cs) ∧
    (∀ cs : List Char, 2 * cs.length + 2 ≤ fuel → 2 * cs.length + 2 ≤ fuel' →
      d.readItems fuel cs = d.readItems fuel' cs) ∧
    ∀ cs : List Char, 2 * cs.length + 2 ≤ fuel → 2 * cs.length + 2 ≤ fuel' →
      d.readEntries fuel cs = d.readEntries fuel' cs := by
  induction fuel with
  | zero => exact fun fuel' => ⟨fun _ h => by omega, fun _ h => by omega, fun _ h => by omega⟩
  | succ fuel ih =>
    intro fuel'
    cases fuel' with
    | zero =>
      exact ⟨fun _ _ h => by omega, fun _ _ h => by omega, fun _ _ h => by omega⟩
    | succ fuel' =>
      obtain ⟨htree, hitems, hentries⟩ := ih fuel'
      have hshrinks : Shrinks (d.readTree fuel') := (shrinks_read hd fuel').1
      refine ⟨fun cs h h' => ?_, fun cs h h' => ?_, fun cs h h' => ?_⟩
      · rw [readTree, readTree]
        exact treeStep_congr (fun rest hrest => hitems rest (by omega) (by omega))
          fun rest hrest => hentries rest (by omega) (by omega)
      · rw [readItems, readItems]
        exact rowStep_congr (htree cs (by omega) (by omega)) hshrinks
          fun rest hrest => hitems rest (by omega) (by omega)
      · rw [readEntries, readEntries]
        refine rowStep_congr ?_ (shrinks_entryStep hd hshrinks)
          fun rest hrest => hentries rest (by omega) (by omega)
        exact entryStep_congr hd fun rest hrest => htree rest (by omega) (by omega)

/-- The items of an array that is not empty. -/
def items (d : Dialect ε α) (cs : List Char) : Except ε (List α × List Char) :=
  d.readItems (2 * cs.length + 2) cs

/-- The entries of an object that is not empty. -/
def entries (d : Dialect ε α) (cs : List Char) : Except ε (List (String × α) × List Char) :=
  d.readEntries (2 * cs.length + 2) cs

theorem shrinks_tree (hd : d.Consuming) : Shrinks d.tree :=
  fun h => (shrinks_read hd _).1 h

theorem shrinks_items (hd : d.Consuming) : Shrinks d.items :=
  fun h => (shrinks_read hd _).2.1 h

theorem shrinks_entries (hd : d.Consuming) : Shrinks d.entries :=
  fun h => (shrinks_read hd _).2.2 h

theorem tree_eq (hd : d.Consuming) (cs : List Char) :
    d.tree cs = d.treeStep d.items d.entries cs := by
  rw [tree, readTree]
  have hfuel := fun rest : List Char => (read_congr_fuel hd (2 * cs.length + 1)
    (2 * rest.length + 2)).2
  exact treeStep_congr (fun rest hrest => (hfuel rest).1 rest (by omega) (by omega))
    fun rest hrest => (hfuel rest).2 rest (by omega) (by omega)

theorem items_eq (hd : d.Consuming) (cs : List Char) :
    d.items cs = d.rowStep ']' d.tree d.items cs := by
  rw [items, readItems]
  refine rowStep_congr ((read_congr_fuel hd _ _).1 cs (by omega) (by omega)) (shrinks_tree hd)
    fun rest hrest => ?_
  exact (read_congr_fuel hd _ _).2.1 rest (by omega) (by omega)

theorem entries_eq (hd : d.Consuming) (cs : List Char) :
    d.entries cs = d.rowStep '\x7d' (d.entryStep d.tree) d.entries cs := by
  rw [entries, readEntries]
  refine rowStep_congr ?_ (shrinks_entryStep hd (shrinks_tree hd)) fun rest hrest => ?_
  · exact entryStep_congr hd fun rest hrest => (read_congr_fuel hd _ _).1 rest (by omega) (by omega)
  · exact (read_congr_fuel hd _ _).2.2 rest (by omega) (by omega)

/-- What starts with no quote or bracket is an atom. -/
theorem tree_eq_atom (hd : d.Consuming)
    (hstart : ∀ c ∈ (d.skip cs).head?, c ∉ ['"', '[', '\x7b']) :
    d.tree cs = d.atom (d.skip cs) := by
  rw [tree_eq hd, treeStep, opening_atom hstart]

/-- A tree is built from its parts, or it is an atom. -/
theorem tree_cases (hd : d.Consuming) {t : α} (h : d.tree cs = .ok (t, rest)) :
    (∃ s, t = d.ofText s) ∨ (∃ items, t = d.ofItems items) ∨ (∃ entries, t = d.ofEntries entries) ∨
      d.atom (d.skip cs) = .ok (t, rest) := by
  rw [tree_eq hd, treeStep] at h
  split at h
  next =>
    split at h <;> cases h
    exact .inl ⟨_, rfl⟩
  next =>
    cases h
    exact .inr (.inl ⟨_, rfl⟩)
  next =>
    split at h <;> cases h
    exact .inr (.inl ⟨_, rfl⟩)
  next =>
    cases h
    exact .inr (.inr (.inl ⟨_, rfl⟩))
  next =>
    split at h <;> cases h
    exact .inr (.inr (.inl ⟨_, rfl⟩))
  next hopen =>
    rw [eq_skip_of_opening_eq_atom hopen] at h
    exact .inr (.inr (.inr h))

theorem readStream_congr_fuel (hd : d.Consuming) (fuel : Nat) :
    ∀ (fuel' : Nat) (cs : List Char), cs.length < fuel → cs.length < fuel' →
      d.readStream fuel cs = d.readStream fuel' cs := by
  induction fuel with
  | zero => exact fun _ _ h => by omega
  | succ fuel ih =>
    intro fuel' cs h h'
    cases fuel' with
    | zero => omega
    | succ fuel' =>
      rw [readStream, readStream]
      split
      next => rfl
      next c rest hskip =>
        have hle := length_skip_le d cs
        split
        next => rfl
        next t after htree =>
          have hafter := shrinks_tree hd htree
          rw [hskip] at hle
          rw [ih fuel' after (by omega) (by omega)]

theorem stream_eq (hd : d.Consuming) (cs : List Char) :
    d.stream cs = match d.skip cs with
      | [] => .ok []
      | c :: rest =>
        match d.tree (c :: rest) with
        | .error fault => .error fault
        | .ok (t, after) =>
          match d.stream after with
          | .error fault => .error fault
          | .ok ts => .ok (t :: ts) := by
  rw [stream, readStream]
  cases hskip : d.skip cs with
  | nil => rfl
  | cons c rest =>
    have hle := length_skip_le d cs
    rw [hskip] at hle
    cases htree : d.tree (c :: rest) with
    | error fault => simp only [htree]
    | ok found =>
      have hafter := shrinks_tree hd htree
      have hfuel := readStream_congr_fuel hd cs.length (found.2.length + 1) found.2
        (by omega) (by omega)
      simp only [htree]
      rw [hfuel]
      rfl

/-! ## Places a reader comes to -/

/-- What a reader is about to read, and the characters from there on. -/
inductive Spot where
  | stream (cs : List Char)
  | tree (cs : List Char)
  | items (cs : List Char)
  | entries (cs : List Char)
  /-- A string, after its opening quote. -/
  | text (cs : List Char)
  | atom (cs : List Char)

/-- From the first place the reader comes to the second : what stands before the second was read
without a fault. -/
inductive Step (d : Dialect ε α) : Spot → Spot → Prop
  | document {cs rest : List Char} {c : Char} (hskip : d.skip cs = c :: rest) :
    Step d (.stream cs) (.tree (c :: rest))
  | nextDocument {cs rest after : List Char} {c : Char} {t : α} (hskip : d.skip cs = c :: rest)
    (htree : d.tree (c :: rest) = .ok (t, after)) : Step d (.stream cs) (.stream after)
  | string {cs rest : List Char} (hopen : d.opening cs = .text rest) :
    Step d (.tree cs) (.text rest)
  | array {cs rest : List Char} (hopen : d.opening cs = .items rest) :
    Step d (.tree cs) (.items rest)
  | object {cs rest : List Char} (hopen : d.opening cs = .entries rest) :
    Step d (.tree cs) (.entries rest)
  | atom {cs rest : List Char} (hopen : d.opening cs = .atom rest) : Step d (.tree cs) (.atom rest)
  | item (cs : List Char) : Step d (.items cs) (.tree cs)
  | nextItem {cs rest next : List Char} {t : α} (htree : d.tree cs = .ok (t, rest))
    (hcomma : d.joint ']' rest = .comma next) : Step d (.items cs) (.items next)
  | name {cs rest : List Char} (hquote : d.after? '"' cs = some rest) :
    Step d (.entries cs) (.text rest)
  | value {cs rest : List Char} {name : String} (hname : d.readName cs = .ok (name, rest)) :
    Step d (.entries cs) (.tree rest)
  | nextEntry {cs rest next : List Char} {e : String × α}
    (hentry : d.entryStep d.tree cs = .ok (e, rest)) (hcomma : d.joint '\x7d' rest = .comma next) :
    Step d (.entries cs) (.entries next)

/-- On its way from the first place the reader comes to the second. -/
def Reaches (d : Dialect ε α) : Spot → Spot → Prop :=
  Relation.ReflTransGen d.Step

/-- Reading from a place fails with a fault. -/
def FailsAt (d : Dialect ε α) (fault : ε) : Spot → Prop
  | .stream cs => d.stream cs = .error fault
  | .tree cs => d.tree cs = .error fault
  | .items cs => d.items cs = .error fault
  | .entries cs => d.entries cs = .error fault
  | .text cs => d.text cs = .error fault
  | .atom cs => d.atom cs = .error fault

/-- A string or an atom. -/
def Spot.IsLeaf : Spot → Prop
  | .text _ | .atom _ => True
  | _ => False

/-- Every step makes this smaller. -/
def Spot.weight : Spot → Nat
  | .stream cs => 3 * cs.length + 3
  | .tree cs => 3 * cs.length + 1
  | .items cs | .entries cs => 3 * cs.length + 2
  | .text _ | .atom _ => 0

theorem Step.weight_lt (hd : d.Consuming) {p q : Spot} (h : d.Step p q) :
    q.weight < p.weight := by
  cases h with
  | @document cs _ _ hskip =>
    have hle := length_skip_le d cs
    rw [hskip] at hle
    simp only [Spot.weight]
    omega
  | @nextDocument cs _ _ _ _ hskip htree =>
    have hle := length_skip_le d cs
    have hafter := shrinks_tree hd htree
    rw [hskip] at hle
    simp only [Spot.weight]
    omega
  | string | atom | name => simp only [Spot.weight]; omega
  | array hopen | object hopen =>
    have hlt := length_rest_opening_lt hopen (by simp)
    simp only [Opening.rest, Spot.weight] at hlt ⊢
    omega
  | item => simp only [Spot.weight]; omega
  | nextItem htree hcomma =>
    have := shrinks_tree hd htree
    have := length_lt_of_joint_comma hcomma
    simp only [Spot.weight]
    omega
  | value hname =>
    have := shrinks_readName hd hname
    simp only [Spot.weight]
    omega
  | nextEntry hentry hcomma =>
    have := shrinks_entryStep hd (shrinks_tree hd) hentry
    have := length_lt_of_joint_comma hcomma
    simp only [Spot.weight]
    omega

/-- A fault at a place that the reader comes to is its fault. -/
theorem FailsAt.of_step (hd : d.Consuming) {fault : ε} {p q : Spot} (h : d.Step p q)
    (hq : d.FailsAt fault q) : d.FailsAt fault p := by
  cases h with
  | document hskip =>
    simp only [FailsAt] at hq ⊢
    rw [stream_eq hd, hskip]
    simp only [hq]
  | nextDocument hskip htree =>
    simp only [FailsAt] at hq ⊢
    rw [stream_eq hd, hskip]
    simp only [htree, hq]
  | string hopen | array hopen | object hopen | atom hopen =>
    simp only [FailsAt] at hq ⊢
    rw [tree_eq hd, treeStep, hopen]
    simp only [hq]
  | item =>
    simp only [FailsAt] at hq ⊢
    rw [items_eq hd, rowStep, hq]
  | nextItem htree hcomma =>
    simp only [FailsAt] at hq ⊢
    rw [items_eq hd, rowStep, htree]
    simp only [hcomma, hq]
  | name hquote =>
    simp only [FailsAt] at hq ⊢
    rw [entries_eq hd, rowStep, entryStep, readName, hquote]
    simp only [hq]
  | value hname =>
    simp only [FailsAt] at hq ⊢
    rw [entries_eq hd, rowStep, entryStep, hname]
    simp only [hq]
  | nextEntry hentry hcomma =>
    simp only [FailsAt] at hq ⊢
    rw [entries_eq hd, rowStep, hentry]
    simp only [hcomma, hq]

theorem FailsAt.of_reaches (hd : d.Consuming) {fault : ε} {p q : Spot} (h : d.Reaches p q)
    (hq : d.FailsAt fault q) : d.FailsAt fault p := by
  induction h using Relation.ReflTransGen.head_induction_on with
  | refl => exact hq
  | head hstep _ ih => exact ih.of_step hd hstep

theorem step_of_stream_fails (hd : d.Consuming) {fault : ε} (h : d.stream cs = .error fault) :
    ∃ q, d.Step (.stream cs) q ∧ d.FailsAt fault q := by
  rw [stream_eq hd] at h
  split at h
  next => cases h
  next c rest hskip =>
    split at h
    next htree => cases h; exact ⟨_, .document hskip, htree⟩
    next t after htree =>
      split at h
      next hafter => cases h; exact ⟨_, .nextDocument hskip htree, hafter⟩
      next => cases h

theorem step_of_tree_fails (hd : d.Consuming) {fault : ε} (h : d.tree cs = .error fault) :
    ∃ q, d.Step (.tree cs) q ∧ d.FailsAt fault q := by
  rw [tree_eq hd, treeStep] at h
  split at h
  next hopen =>
    refine ⟨_, .string hopen, ?_⟩
    split at h
    next htext => cases h; exact htext
    next => cases h
  next => cases h
  next hopen =>
    refine ⟨_, .array hopen, ?_⟩
    split at h
    next hitems => cases h; exact hitems
    next => cases h
  next => cases h
  next hopen =>
    refine ⟨_, .object hopen, ?_⟩
    split at h
    next hentries => cases h; exact hentries
    next => cases h
  next hopen => exact ⟨_, .atom hopen, h⟩

section

variable {fault : ε} (hmalformed : fault ≠ d.malformed) (htruncated : fault ≠ d.truncated)

include hmalformed htruncated

theorem unexpected_ne (cs : List Char) : d.unexpected cs ≠ fault := by
  unfold unexpected
  split
  · exact htruncated.symm
  · exact hmalformed.symm

/-- A row fails at its first element, or it fails after the comma. -/
theorem rowStep_eq_error {bracket : Char} {one : List Char → Except ε (β × List Char)}
    {more : List Char → Except ε (List β × List Char)}
    (h : d.rowStep bracket one more cs = .error fault) :
    one cs = .error fault ∨ ∃ x rest next, one cs = .ok (x, rest) ∧
      d.joint bracket rest = .comma next ∧ more next = .error fault := by
  unfold rowStep at h
  split at h
  next hone => cases h; exact .inl hone
  next hone =>
    split at h
    next => cases h
    next hcomma =>
      split at h
      next hmore => cases h; exact .inr ⟨_, _, _, hone, hcomma, hmore⟩
      next => cases h
    next => exact absurd (Except.error.inj h) (unexpected_ne hmalformed htruncated _)

/-- An entry fails at its name, or it fails at its value. -/
theorem entryStep_eq_error {tree : List Char → Except ε (α × List Char)}
    (h : d.entryStep tree cs = .error fault) :
    (∃ rest, d.after? '"' cs = some rest ∧ d.text rest = .error fault) ∨
      ∃ name rest, d.readName cs = .ok (name, rest) ∧ tree rest = .error fault := by
  unfold entryStep at h
  split at h
  next hname =>
    cases h
    unfold readName at hname
    split at hname
    next => exact absurd (Except.error.inj hname) (unexpected_ne hmalformed htruncated _)
    next inner hquote =>
      split at hname
      next htext => cases hname; exact .inl ⟨inner, hquote, htext⟩
      next =>
        split at hname
        next => exact absurd (Except.error.inj hname) (unexpected_ne hmalformed htruncated _)
        next => cases hname
  next hname =>
    split at h
    next htree => cases h; exact .inr ⟨_, _, hname, htree⟩
    next => cases h

/-- A fault that is not the grammar's arises at a string or an atom, or at the next place. -/
theorem step_of_failsAt (hd : d.Consuming) {p : Spot} (h : d.FailsAt fault p) :
    p.IsLeaf ∨ ∃ q, d.Step p q ∧ d.FailsAt fault q := by
  cases p with
  | stream cs => exact .inr (step_of_stream_fails hd h)
  | tree cs => exact .inr (step_of_tree_fails hd h)
  | items cs =>
    rw [FailsAt, items_eq hd] at h
    obtain htree | ⟨_, _, _, htree, hcomma, hmore⟩ := rowStep_eq_error hmalformed htruncated h
    · exact .inr ⟨_, .item cs, htree⟩
    · exact .inr ⟨_, .nextItem htree hcomma, hmore⟩
  | entries cs =>
    rw [FailsAt, entries_eq hd] at h
    obtain hentry | ⟨_, _, _, hentry, hcomma, hmore⟩ := rowStep_eq_error hmalformed htruncated h
    · obtain ⟨_, hquote, htext⟩ | ⟨_, _, hname, htree⟩ :=
        entryStep_eq_error hmalformed htruncated hentry
      · exact .inr ⟨_, .name hquote, htext⟩
      · exact .inr ⟨_, .value hname, htree⟩
    · exact .inr ⟨_, .nextEntry hentry hcomma, hmore⟩
  | text cs => exact .inl trivial
  | atom cs => exact .inl trivial

theorem exists_leaf_of_failsAt (hd : d.Consuming) {p : Spot} (h : d.FailsAt fault p) :
    ∃ q, d.Reaches p q ∧ q.IsLeaf ∧ d.FailsAt fault q := by
  obtain hleaf | ⟨q, hstep, hq⟩ := step_of_failsAt hmalformed htruncated hd h
  · exact ⟨p, .refl, hleaf, h⟩
  · have hlt := hstep.weight_lt hd
    obtain ⟨leaf, hreach, hleaf⟩ := exists_leaf_of_failsAt hd hq
    exact ⟨leaf, hreach.head hstep, hleaf⟩
termination_by p.weight

/-- A stream fails with a fault that is not the grammar's exactly if its reader comes to a string
or an atom with that fault. -/
theorem stream_fails_iff (hd : d.Consuming) (cs : List Char) :
    d.stream cs = .error fault ↔
      (∃ rest, d.Reaches (.stream cs) (.text rest) ∧ d.text rest = .error fault) ∨
      ∃ rest, d.Reaches (.stream cs) (.atom rest) ∧ d.atom rest = .error fault := by
  constructor
  · intro h
    obtain ⟨q, hreach, hleaf, hq⟩ := exists_leaf_of_failsAt hmalformed htruncated hd
      (p := .stream cs) h
    cases q with
    | text rest => exact .inl ⟨rest, hreach, hq⟩
    | atom rest => exact .inr ⟨rest, hreach, hq⟩
    | _ => exact hleaf.elim
  · rintro (⟨rest, hreach, hfault⟩ | ⟨rest, hreach, hfault⟩)
    · exact FailsAt.of_reaches hd (q := .text rest) hreach hfault
    · exact FailsAt.of_reaches hd (q := .atom rest) hreach hfault

end

end Dialect

end JsonShape.Json
