import JsonShape.Proofs.Canonical
import JsonShape.Proofs.TreeRender

/-!
# What the table holds already does not show

A table may hold records from earlier calls when a value is inferred on it, so that interning hands
out old handles in any pattern. `Session.written` is what is then written for the value. It is what
is written for the value on a fresh table with the same stem, text or fault
(`Session.written_eq_of_worked`) : both tables show the tree of the value, and nothing else of a
table is seen.

The tree of a value depends on two of the options only (`Tree.infer_congr`). The stem of the table
is kept through every call, and the stem that the options name is not looked at after the start.
-/

namespace JsonShape

namespace Tree

section Congr

variable {o o' : Options}

theorem alone_congr (hf : o.optionalFields = o'.optionalFields) : alone o = alone o' := by
  funext t
  rw [alone, alone, hf]

theorem unifyWithin_congr (hf : o.optionalFields = o'.optionalFields) (n : Nat) :
    unifyWithin o n = unifyWithin o' n := by
  induction n with
  | zero => rfl
  | succ n ih =>
    funext a b
    rw [unifyWithin, unifyWithin, ih]
    simp only [unifyStep, alone_congr hf]

theorem unify_congr (hf : o.optionalFields = o'.optionalFields) : unify o = unify o' := by
  funext a b
  rw [unify, unify, unifyWithin_congr hf]

theorem inferItems_congr_options (hf : o.optionalFields = o'.optionalFields) {items : List Value}
    (ih : ∀ v ∈ items, infer o v = infer o' v) (found : Tree) :
    inferItems o found items = inferItems o' found items := by
  induction items generalizing found with
  | nil => rw [inferItems, inferItems]
  | cons item items ihitems =>
    have hitem := ih item (List.mem_cons_self ..)
    have hrest := ihitems fun v hv => ih v (List.mem_cons_of_mem _ hv)
    rw [inferItems, inferItems, hitem, unify_congr hf]
    simp only [hrest]

theorem inferFields_congr_options {entries : List (Value × Value)}
    (ih : ∀ e ∈ entries, infer o e.2 = infer o' e.2) :
    inferFields o entries = inferFields o' entries := by
  induction entries with
  | nil => rw [inferFields, inferFields]
  | cons e entries ihentries =>
    obtain ⟨key, value⟩ := e
    have hvalue : infer o value = infer o' value := ih (key, value) (List.mem_cons_self ..)
    have hrest := ihentries fun e he => ih e (List.mem_cons_of_mem _ he)
    cases key with
    | text k => rw [inferFields, inferFields, hvalue, hrest]
    | _ => simpa only [inferFields] using hrest

/-- The stem that the options name does not matter to the tree of a value. -/
theorem infer_congr (hf : o.optionalFields = o'.optionalFields)
    (hc : o.coerceNumericStrings = o'.coerceNumericStrings) (v : Value) :
    infer o v = infer o' v := by
  induction v using Value.induct with
  | text s => rw [infer, infer, textShape, textShape, hc]
  | list items ih => rw [infer, infer, inferItems_congr_options hf ih]
  | tuple items ih => rw [infer, infer, inferItems_congr_options hf ih]
  | object entries ih => rw [infer_object, infer_object, inferFields_congr_options ih]
  | _ => rw [infer, infer]

end Congr

end Tree

/-! ## Worked sessions -/

namespace Session

/-- What is written for a value that is inferred on a session : a text, or the fault that inference
or rendering gives. -/
def written (s : Session) (o : Options) (format : String) (validate : Bool) (v : Value) :
    Except (Fault ⊕ RenderFault) String :=
  match ((inferOutline o v).run s).1 with
  | .error fault => .error (.inl fault)
  | .ok x => (render format validate x).1.mapError .inr

variable {s : Session} {o : Options}

theorem written_fresh (o : Options) (format : String) (validate : Bool) (v : Value) :
    (fresh o).written o format validate v = JsonShape.written o format validate v :=
  rfl

/-- Sessions over sound tables with one stem write a value alike, under options that infer alike. -/
theorem written_eq_of_sound {s s' : Session} {o o' : Options}
    (hs : s.table.Sound Tree.Unrestricted) (hs' : s'.table.Sound Tree.Unrestricted)
    (hstem : s'.table.stem = s.table.stem) {v : Value} (hv : Tree.infer o' v = Tree.infer o v)
    (format : String) (validate : Bool) :
    s.written o format validate v = s'.written o' format validate v := by
  have hgives := inferOutline_gives (Tree.inferred_unrestricted o) hs v
  have hgives' := inferOutline_gives (Tree.inferred_unrestricted o') hs' v
  rw [hv, hstem] at hgives'
  cases hT : Tree.infer o v with
  | error fault =>
    rw [hT] at hgives hgives'
    obtain ⟨s₁, hrun, -⟩ := hgives
    obtain ⟨s₂, hrun', -⟩ := hgives'
    rw [written, written, hrun, hrun']
  | ok T =>
    rw [hT] at hgives hgives'
    obtain ⟨x, s₁, hrun, -, hx⟩ := hgives
    obtain ⟨y, s₂, hrun', -, hy⟩ := hgives'
    rw [written, written, hrun, hrun']
    simp only [render_eq_of_shows hx hy]

/-- Whatever interning, inference and unification have put into a table, a value inferred on it is
written as on a fresh table with the same stem : the same text, or the same fault. -/
theorem written_eq_of_worked (h : s.Worked) {stem : String} (hstem : s.table.stem = stem)
    (o : Options) (format : String) (validate : Bool) (v : Value) :
    s.written o format validate v =
      JsonShape.written { o with recordPrefix := stem } format validate v := by
  have hfresh : (fresh { o with recordPrefix := stem }).table.stem = s.table.stem := hstem.symm
  have hinfer : Tree.infer { o with recordPrefix := stem } v = Tree.infer o v :=
    Tree.infer_congr (by rfl) (by rfl) v
  rw [← written_fresh]
  exact written_eq_of_sound h.sound (sound_start _ stem) hfresh hinfer format validate

/-- A table that holds a record with an empty name, and one that mentions it, gives the text of a
nested object as a fresh one does. -/
theorem written_eq_of_worked_interned :
    ∃ s : Session, s.Worked ∧ s.table.stem = "T" ∧ s.table.size = 2 ∧
      s.written {} "go" true (.object [(.text "a", .object [(.text "b", .null)])]) =
        JsonShape.written { recordPrefix := "T" } "go" true
          (.object [(.text "a", .object [(.text "b", .null)])]) := by
  have hfirst := @Worked.intern _ _ [⟨"", "", .any⟩] _ (Worked.start "T") (by decide +kernel) rfl
  have hsecond := @Worked.intern _ _ [⟨"A", "a", .record 0⟩] _ hfirst (by decide +kernel) rfl
  exact ⟨_, hsecond, by decide +kernel, by decide +kernel,
    written_eq_of_worked hsecond (by decide +kernel) {} "go" true _⟩

end Session

end JsonShape
