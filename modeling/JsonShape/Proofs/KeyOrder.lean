import JsonShape.Proofs.TreeRender
import Mathlib.Data.List.Perm.Basic

/-!
# The order of keys

`Value.Anywhere` takes a change of values to any depth of a value, any number of times. Two values
that differ in the order of entries somewhere have the same tree (`Tree.infer_ok_of_keysReordered`),
so the same text is written for both, or the same fault of rendering is given.

If inference fails on one of them, it fails on the other, but perhaps at another text : the fault
says how many digits the first integer literal has that is too long, and which one comes first
depends on the order of keys. This is the only way in which that order can be seen
(`written_ne_iff_of_keysReordered`), and it can (`written_ne_of_keysReordered`).
-/

namespace JsonShape

namespace Value

/-- A change made at any depth of a value, any number of times. -/
inductive Anywhere (R : Value → Value → Prop) : Value → Value → Prop
  | here {v w : Value} (h : R v w) : Anywhere R v w
  | refl (v : Value) : Anywhere R v v
  | trans {u v w : Value} (h : Anywhere R u v) (h' : Anywhere R v w) : Anywhere R u w
  | list (before after : List Value) {v w : Value} (h : Anywhere R v w) :
    Anywhere R (.list (before ++ v :: after)) (.list (before ++ w :: after))
  | tuple (before after : List Value) {v w : Value} (h : Anywhere R v w) :
    Anywhere R (.tuple (before ++ v :: after)) (.tuple (before ++ w :: after))
  | object (before after : List (Value × Value)) {key v w : Value} (h : Anywhere R v w) :
    Anywhere R (.object (before ++ (key, v) :: after)) (.object (before ++ (key, w) :: after))

/-- One object with its entries in another order. -/
inductive EntriesPermuted : Value → Value → Prop
  | object {entries entries' : List (Value × Value)} (h : entries.Perm entries') :
    EntriesPermuted (.object entries) (.object entries')

/-- Objects at any depth have their entries in another order. -/
abbrev KeysReordered : Value → Value → Prop :=
  Anywhere EntriesPermuted

end Value

namespace Tree

variable {o : Options}

/-- Two values have the same tree, if any. -/
def SameTree (o : Options) (v w : Value) : Prop :=
  ∀ T, infer o v = .ok T ↔ infer o w = .ok T

theorem inferItems_congr {v w : Value} (h : SameTree o v w) (before after : List Value)
    {found E : Tree} : inferItems o found (before ++ v :: after) = .ok E ↔
      inferItems o found (before ++ w :: after) = .ok E := by
  induction before generalizing found with
  | nil =>
    rw [List.nil_append, List.nil_append, inferItems_cons_eq_ok, inferItems_cons_eq_ok]
    simp only [h _]
  | cons item before ih =>
    rw [List.cons_append, List.cons_append, inferItems_cons_eq_ok, inferItems_cons_eq_ok]
    simp only [ih]

theorem sameTree_object_congr {key v w : Value} (h : SameTree o v w)
    (before after : List (Value × Value)) :
    SameTree o (.object (before ++ (key, v) :: after)) (.object (before ++ (key, w) :: after)) := by
  have hfield : ∀ f, IsField o (key, v) f ↔ IsField o (key, w) f := fun f =>
    ⟨fun hf => ⟨hf.key, hf.name, (h _).1 hf.shape⟩, fun hf => ⟨hf.key, hf.name, (h _).2 hf.shape⟩⟩
  intro T
  rw [infer_object_eq_ok, infer_object_eq_ok]
  simp [forall₂_append_cons_congr hfield]

/-- The fields of an object's entries in another order are its fields in another order. -/
theorem sameTree_of_perm {entries entries' : List (Value × Value)} (h : entries.Perm entries') :
    SameTree o (.object entries) (.object entries') := by
  have imp : ∀ {es es' : List (Value × Value)} {T : Tree}, es.Perm es' →
      infer o (.object es) = .ok T → infer o (.object es') = .ok T := by
    intro es es' T hperm hT
    rw [infer_object_eq_ok] at hT ⊢
    obtain ⟨rfl, rfl⟩ | ⟨hkeys, rfl⟩ | ⟨hne, hkeys, fs, hfs, rfl⟩ := hT
    · exact Or.inl ⟨hperm.nil_eq.symm, rfl⟩
    · exact Or.inr (Or.inl ⟨fun h => hkeys (h.perm (hperm.symm.map _)), rfl⟩)
    · obtain ⟨fs', hfs', hperm'⟩ := List.perm_comp_forall₂ hperm.symm hfs
      refine Or.inr (Or.inr ⟨?_, hkeys.perm (hperm.map _), fs', hfs', ?_⟩)
      · rintro rfl
        exact hne hperm.eq_nil
      · rw [RecordOf.sorted_eq_of_perm (nodup_names_of_forall₂ hkeys hfs) hperm'.symm]
  exact fun T => ⟨imp h, imp h.symm⟩

/-- Values that differ in the order of entries have the same tree, if any. -/
theorem infer_ok_of_keysReordered {v w : Value} (h : v.KeysReordered w) : SameTree o v w := by
  induction h with
  | here h =>
    obtain ⟨hperm⟩ := h
    exact sameTree_of_perm hperm
  | refl v => exact fun T => Iff.rfl
  | trans _ _ ih ih' => exact fun T => (ih T).trans (ih' T)
  | list _ _ _ ih | tuple _ _ _ ih =>
    intro T
    refine (infer_items_eq_ok rfl).trans (Iff.trans ?_ (infer_items_eq_ok rfl).symm)
    simp only [inferItems_congr ih]
  | object before after _ ih => exact sameTree_object_congr ih before after

end Tree

/-! ## What is written -/

/-- The order of keys changes what is written for a value only where inference fails on an integer
literal that is too long, and then only the number of digits that the fault names. -/
theorem written_ne_iff_of_keysReordered {v w : Value} (h : v.KeysReordered w) (o : Options)
    (format : String) (validate : Bool) :
    written o format validate v ≠ written o format validate w ↔
      ∃ d e, d ≠ e ∧ (inferValue o v).1 = .error (.integerTooLong d) ∧
        (inferValue o w).1 = .error (.integerTooLong e) := by
  have hsame := Tree.infer_ok_of_keysReordered h (o := o)
  simp only [inferValue_eq_error_iff]
  cases hv : Tree.infer o v with
  | ok T =>
    have heq : written o format validate v = written o format validate w :=
      written_eq_of_infer hv ((hsame T).1 hv)
    simp [heq]
  | error fault =>
    cases hw : Tree.infer o w with
    | ok T => cases hv.symm.trans ((hsame T).2 hw)
    | error fault' =>
      obtain ⟨d, rfl⟩ := Tree.exists_digits_of_infer hv
      obtain ⟨e, rfl⟩ := Tree.exists_digits_of_infer hw
      simp [written_eq_error hv, written_eq_error hw]

/-- Two entries in either order have the same text. -/
theorem written_ne_iff_of_keysReordered_two_entries :
    Value.KeysReordered (.object [(.text "a", .int 1), (.text "b", .text "2")])
        (.object [(.text "b", .text "2"), (.text "a", .int 1)]) ∧
      written { coerceNumericStrings := false } "go" true
          (.object [(.text "a", .int 1), (.text "b", .text "2")]) =
        written { coerceNumericStrings := false } "go" true
          (.object [(.text "b", .text "2"), (.text "a", .int 1)]) := by
  have h : Value.KeysReordered (.object [(.text "a", .int 1), (.text "b", .text "2")])
      (.object [(.text "b", .text "2"), (.text "a", .int 1)]) :=
    .here (.object (List.Perm.swap ..))
  obtain ⟨x, hx⟩ := exists_inferValue_of_not_coerced (o := { coerceNumericStrings := false }) rfl
    (.object [(.text "a", .int 1), (.text "b", .text "2")])
  refine ⟨h, not_not.1 fun hne => ?_⟩
  obtain ⟨d, -, -, hd, -⟩ :=
    (written_ne_iff_of_keysReordered h { coerceNumericStrings := false } "go" true).1 hne
  cases hd.symm.trans hx

/-! ## A fault that tells the order of keys -/

/-- So many ones, as a text. -/
def ones (n : Nat) : String :=
  String.ofList (List.replicate n '1')

theorem ofText?_ones {n : Nat} (h : 0 < n) :
    NumberLiteral.ofText? (ones n) = some ⟨false, List.replicate n '1', none, none⟩ := by
  obtain ⟨m, rfl⟩ : ∃ m, n = m + 1 := ⟨n - 1, by omega⟩
  have hdigit : Text.isAsciiDigit '1' = true := by decide
  have hwhole : NumberLiteral.scanWhole (List.replicate (m + 1) '1') =
      some (List.replicate (m + 1) '1', []) := by
    simp [NumberLiteral.scanWhole, NumberLiteral.digits, List.replicate_succ, hdigit]
  have hhead : ((List.replicate (m + 1) '1').head? == some '-') = false := by
    simp [List.replicate_succ]
  rw [NumberLiteral.ofText?, ones, String.toList_ofList, NumberLiteral.scan]
  simp [hwhole, hhead, NumberLiteral.scanFraction, NumberLiteral.scanExponent]

theorem numberTextShape_ones {n : Nat} (h : maxIntegerDigits < n) :
    numberTextShape (ones n) = .error (.integerTooLong n) := by
  rw [numberTextShape, ofText?_ones (by omega)]
  simp [NumberLiteral.isInteger, h]

/-- A fault at the first entry is the fault of the object. -/
theorem Tree.infer_object_first_fault {o : Options} {k : String} {v : Value}
    {rest : List (Value × Value)} {fault : Fault}
    (hkeys : Nameable (((.text k, v) :: rest).map Prod.fst)) (hv : infer o v = .error fault) :
    infer o (.object ((.text k, v) :: rest)) = .error fault := by
  rw [infer_object_of_nameable o (by simp) hkeys, inferFields, hv]
  rfl

/-- The order of two keys can be seen in what a fault says. -/
theorem written_ne_of_keysReordered :
    Value.KeysReordered (.object [(.text "a", .text (ones 4301)), (.text "b", .text (ones 4302))])
        (.object [(.text "b", .text (ones 4302)), (.text "a", .text (ones 4301))]) ∧
      written {} "go" true
          (.object [(.text "a", .text (ones 4301)), (.text "b", .text (ones 4302))]) =
        .error (.inl (.integerTooLong 4301)) ∧
      written {} "go" true
          (.object [(.text "b", .text (ones 4302)), (.text "a", .text (ones 4301))]) =
        .error (.inl (.integerTooLong 4302)) ∧
      Fault.text (.integerTooLong 4301) ≠ Fault.text (.integerTooLong 4302) := by
  have hkeys : Nameable [.text "a", .text "b"] := keyProblem_eq_none_iff.1 rfl
  have hones : ∀ {n : Nat}, maxIntegerDigits < n →
      Tree.infer {} (.text (ones n)) = .error (.integerTooLong n) := by
    intro n hn
    rw [Tree.infer, textShape, if_pos rfl, numberTextShape_ones hn]
    rfl
  refine ⟨.here (.object (List.Perm.swap ..)), written_eq_error ?_, written_eq_error ?_, by decide⟩
  · exact Tree.infer_object_first_fault hkeys (hones (by decide))
  · exact Tree.infer_object_first_fault (hkeys.perm (List.Perm.swap ..)) (hones (by decide))

end JsonShape
