import JsonShape.Proofs.KeyOrder
import JsonShape.Proofs.Principal

/-!
# The order of items

The items of an array are folded from left to right, and the fold stops at `any`, so that two orders
of the same items visit different ones and store different records. The result does not depend on
it : a tree takes an array whatever the order of its items (`Tree.accepts_iff_of_itemsReordered`),
and the inferred tree is the least one that takes the value, so two orders give trees below each
other. Without optional marks these differ in their keys at most, and not at all where every
identifier comes from one key of the value (`Tree.infer_eq_of_accepts`). What is written is then the
same (`render_eq_of_reordered`).
-/

namespace JsonShape

namespace Value

/-- One array with its items in another order. -/
inductive ItemsPermuted : Value → Value → Prop
  | list {items items' : List Value} (h : items.Perm items') :
    ItemsPermuted (.list items) (.list items')
  | tuple {items items' : List Value} (h : items.Perm items') :
    ItemsPermuted (.tuple items) (.tuple items')

/-- Arrays at any depth have their items in another order. -/
abbrev ItemsReordered : Value → Value → Prop :=
  Anywhere ItemsPermuted

/-- Two values that differ in the order of items of arrays, or that stand for two streams of
documents that differ in the order of documents or of items in them. -/
inductive Reordered : Value → Value → Prop
  | value {v w : Value} (h : v.ItemsReordered w) : Reordered v w
  | documents {docs docs' : List Value} {v w : Value}
    (h : (Value.list docs).ItemsReordered (.list docs')) (hv : documentsValue docs = some v)
    (hw : documentsValue docs' = some w) : Reordered v w

/-- No two keys in the value become the same identifier. -/
def KeysDistinct (v : Value) : Prop :=
  ∀ k l, v.HasKey k → v.HasKey l → identifierOf k = identifierOf l → k = l

variable {k : String}

theorem hasKey_object_iff {entries : List (Value × Value)} :
    (Value.object entries).HasKey k ↔ ∃ e ∈ entries, e.1 = .text k ∨ e.2.HasKey k := by
  constructor
  · intro h
    cases h with
    | here h => exact ⟨_, h, Or.inl rfl⟩
    | object he h => exact ⟨_, he, Or.inr h⟩
  · rintro ⟨⟨key, v⟩, he, rfl | h⟩
    · exact .here he
    · exact .object he h

theorem hasKey_iff_of_itemsReordered {v w : Value} (h : v.ItemsReordered w) :
    v.HasKey k ↔ w.HasKey k := by
  induction h with
  | here h =>
    cases h with
    | list h | tuple h =>
      refine (hasKey_items_iff rfl).trans (Iff.trans ?_ (hasKey_items_iff rfl).symm)
      simp only [h.mem_iff]
  | refl v => exact Iff.rfl
  | trans _ _ ih ih' => exact ih.trans ih'
  | list _ _ _ ih | tuple _ _ _ ih =>
    refine (hasKey_items_iff rfl).trans (Iff.trans ?_ (hasKey_items_iff rfl).symm)
    simp [ih, or_and_right, exists_or]
  | object _ _ _ ih => simp [hasKey_object_iff, ih, or_and_right, exists_or]

end Value

namespace Tree

variable {o : Options}

/-- A value is taken by the same trees whatever the order of items in it. -/
theorem accepts_iff_of_itemsReordered {v w : Value} (h : v.ItemsReordered w) {S : Tree} :
    Accepts o S v ↔ Accepts o S w := by
  induction h generalizing S with
  | here h =>
    cases h with
    | list h | tuple h =>
      refine (accepts_items_iff rfl).trans (Iff.trans ?_ (accepts_items_iff rfl).symm)
      simp only [h.mem_iff]
  | refl v => exact Iff.rfl
  | trans _ _ ih ih' => exact ih.trans ih'
  | list _ _ _ ih | tuple _ _ _ ih =>
    refine (accepts_items_iff rfl).trans (Iff.trans ?_ (accepts_items_iff rfl).symm)
    simp only [List.forall_mem_append, List.forall_mem_cons, ih]
  | @object before after key v w _ ih =>
    have hentry : ∀ fs, TakesEntry o fs (key, v) ↔ TakesEntry o fs (key, w) := by
      simp only [TakesEntry, ih, implies_true]
    rw [accepts_object_iff (by simp), accepts_object_iff (by simp)]
    simp only [List.map_append, List.map_cons, List.forall_mem_append, List.forall_mem_cons, hentry]

/-- Values with the same keys that are taken by the same trees have one tree, where no identifier
comes from two keys and no field is marked optional. -/
theorem infer_eq_of_accepts (hoff : o.optionalFields = false) {v w : Value}
    (hkeys : v.KeysDistinct) (hhas : ∀ k, v.HasKey k ↔ w.HasKey k)
    (haccepts : ∀ S, Accepts o S v ↔ Accepts o S w) {T U : Tree} (hT : infer o v = .ok T)
    (hU : infer o w = .ok U) : T = U := by
  -- A name stands for the key of the value that it comes from.
  let named (n k : String) : Prop := identifierOf k = n ∧ v.HasKey k
  have hoff' : o.optionalFields = true → false = true := by simp [hoff]
  have hformT : Formed named false false T := formed_of_infer hoff' (fun k hk => ⟨rfl, hk⟩) hT
  have hformU : Formed named false false U :=
    formed_of_infer hoff' (fun k hk => ⟨rfl, (hhas k).2 hk⟩) hU
  refine Below.antisymm ?_ (below_of_accepts hT ?_) (below_of_accepts hU ?_) hformT hformU
  · rintro n k l ⟨rfl, hk⟩ ⟨hl, hl'⟩
    exact hkeys k l hk hl' hl.symm
  · exact (haccepts U).2 (accepts_of_infer hU)
  · exact (haccepts T).1 (accepts_of_infer hT)

end Tree

/-! ## Documents -/

theorem Value.exists_list_of_itemsReordered {v w : Value} (h : v.ItemsReordered w)
    {items : List Value} (hv : v = .list items) :
    ∃ items', w = .list items' ∧ items'.length = items.length := by
  induction h generalizing items with
  | here h =>
    cases h with
    | list h =>
      obtain rfl := Value.list.inj hv
      exact ⟨_, rfl, h.length_eq.symm⟩
    | tuple h => cases hv
  | refl v => exact ⟨items, hv, rfl⟩
  | trans _ _ ih ih' =>
    obtain ⟨items', rfl, hlength⟩ := ih hv
    obtain ⟨items'', rfl, hlength'⟩ := ih' rfl
    exact ⟨items'', rfl, hlength'.trans hlength⟩
  | list _ _ _ _ =>
    obtain rfl := Value.list.inj hv
    exact ⟨_, rfl, by simp⟩
  | tuple _ _ _ _ => cases hv
  | object _ _ _ _ => cases hv

theorem documentsValue_eq_some {docs : List Value} {v : Value} (h : documentsValue docs = some v) :
    docs = [v] ∨ v = .list docs ∧ docs.length ≠ 1 := by
  match docs, h with
  | [document], h => exact Or.inl (by rw [Option.some.inj h])
  | first :: second :: rest, h => exact Or.inr ⟨(Option.some.inj h).symm, by simp⟩

/-- Streams of one document stand for that document, all others for the list of their documents. -/
theorem Value.Reordered.alone_or_same {v w : Value} (h : v.Reordered w) :
    v.ItemsReordered w ∨ (Value.list [v]).ItemsReordered (.list [w]) := by
  cases h with
  | value h => exact Or.inl h
  | documents h hv hw =>
    obtain ⟨_, heq, hlength⟩ := Value.exists_list_of_itemsReordered h rfl
    obtain rfl := Value.list.inj heq
    rcases documentsValue_eq_some hv with rfl | ⟨rfl, hne⟩
    · rcases documentsValue_eq_some hw with rfl | ⟨rfl, hne⟩
      · exact Or.inr h
      · exact absurd hlength hne
    · rcases documentsValue_eq_some hw with rfl | ⟨rfl, -⟩
      · exact absurd hlength.symm hne
      · exact Or.inl h

theorem Value.Reordered.hasKey_iff {v w : Value} (h : v.Reordered w) (k : String) :
    v.HasKey k ↔ w.HasKey k := by
  rcases h.alone_or_same with h | h
  · exact hasKey_iff_of_itemsReordered h
  · simpa [hasKey_items_iff (v := .list _) rfl] using hasKey_iff_of_itemsReordered h (k := k)

theorem Value.Reordered.accepts_iff {v w : Value} (h : v.Reordered w) (o : Options) (S : Tree) :
    Tree.Accepts o S v ↔ Tree.Accepts o S w := by
  rcases h.alone_or_same with h | h
  · exact Tree.accepts_iff_of_itemsReordered h
  · simpa [Tree.accepts_items_iff (v := .list _) rfl, Tree.core] using
      Tree.accepts_iff_of_itemsReordered h (o := o) (S := .array S)

/-! ## What is written -/

/-- The order of items, or of documents, does not change what is written, where inference returns
on both, no identifier comes from two keys and fields are not marked optional. -/
theorem render_eq_of_reordered {o : Options} (hoff : o.optionalFields = false) {v w : Value}
    (h : v.Reordered w) (hkeys : v.KeysDistinct) {x y : Outline} (hx : (inferValue o v).1 = .ok x)
    (hy : (inferValue o w).1 = .ok y) (format : String) (validate : Bool) :
    render format validate x = render format validate y := by
  obtain ⟨T, hT, hshows⟩ := exists_tree_of_inferValue hx
  obtain ⟨U, hU, hshows'⟩ := exists_tree_of_inferValue hy
  obtain rfl := Tree.infer_eq_of_accepts hoff hkeys h.hasKey_iff (h.accepts_iff o) hT hU
  exact render_eq_of_shows hshows hshows' format validate

/-- Two documents, with an array in one of them, in either order. -/
theorem render_eq_of_reordered_two_documents :
    ∃ x y, (inferValue { coerceNumericStrings := false }
          (.list [.object [(.text "a", .list [.int 1, .text "x"])],
            .object [(.text "b", .null)]])).1 = .ok x ∧
      (inferValue { coerceNumericStrings := false }
          (.list [.object [(.text "b", .null)],
            .object [(.text "a", .list [.text "x", .int 1])]])).1 = .ok y ∧
      render "go" true x = render "go" true y := by
  have hitems : Value.ItemsReordered
      (.list [.object [(.text "a", .list [.int 1, .text "x"])], .object [(.text "b", .null)]])
      (.list [.object [(.text "b", .null)], .object [(.text "a", .list [.text "x", .int 1])]]) :=
    .trans (.list [] _ (.object [] [] (.here (.list (List.Perm.swap ..)))))
      (.here (.list (List.Perm.swap ..)))
  have hkeys : Value.KeysDistinct
      (.list [.object [(.text "a", .list [.int 1, .text "x"])], .object [(.text "b", .null)]]) := by
    have hab : ∀ k, Value.HasKey k
        (.list [.object [(.text "a", .list [.int 1, .text "x"])], .object [(.text "b", .null)]]) →
          "a" = k ∨ "b" = k := by
      intro k hk
      have hint : ¬ Value.HasKey k (.int 1) := nofun
      have htext : ¬ Value.HasKey k (.text "x") := nofun
      have hnull : ¬ Value.HasKey k .null := nofun
      simpa [Value.hasKey_items_iff (v := .list _) rfl, Value.hasKey_object_iff, hint, htext,
        hnull] using hk
    rintro k l hk hl
    rcases hab k hk with rfl | rfl <;> rcases hab l hl with rfl | rfl <;> decide
  obtain ⟨x, hx⟩ := exists_inferValue_of_not_coerced (o := { coerceNumericStrings := false }) rfl
    (.list [.object [(.text "a", .list [.int 1, .text "x"])], .object [(.text "b", .null)]])
  obtain ⟨y, hy⟩ := exists_inferValue_of_not_coerced (o := { coerceNumericStrings := false }) rfl
    (.list [.object [(.text "b", .null)], .object [(.text "a", .list [.text "x", .int 1])]])
  exact ⟨x, y, hx, hy, render_eq_of_reordered rfl (.documents hitems rfl rfl) hkeys hx hy "go" true⟩

end JsonShape
