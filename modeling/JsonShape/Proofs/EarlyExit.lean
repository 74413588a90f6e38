import JsonShape.Proofs.Canonical
import JsonShape.Proofs.TreeRender

/-!
# Leaving an array early does not show

Inference leaves an array as soon as the items so far have nothing in common. `Session.inferWhole`
is the same recursion without that exit : it goes through every item of every array. It interns
records that inference never comes to, so that from there on the two hand out different handles.

What the two have in common is the tree. Once the tree found so far is `any`, no further item
changes it (`Tree.inferItems_any`), so wherever `inferWhole` returns it returns a shape of the tree
that inference finds (`inferWhole_gives`). A tree is all that is seen of a shape when it is written,
and so `Session.early_exit_invisible` follows. The converse fails : `inferWhole` may meet a text
that it cannot read after the exit.
-/

namespace JsonShape

namespace Session

mutual

/-- The shape of a value, every item of every array taken in. -/
def inferWhole (o : Options) : Value → Action Shape
  | .list items => do
    let element ← inferWholeItems o .undefined items
    pure (.array element)
  | .tuple items => do
    let element ← inferWholeItems o .undefined items
    pure (.array element)
  | .object entries =>
    if entries.isEmpty then pure .undefined
    else
      match keyProblem [] (entries.map Prod.fst) with
      | some problem => do
        report problem
        pure .any
      | none => do
        let fields ← inferWholeFields o entries
        intern fields
  | v => infer o v

/-- Unifies the shapes of all items into the shape found so far. -/
def inferWholeItems (o : Options) (found : Shape) : List Value → Action Shape
  | [] => pure found
  | item :: rest => do
    let shape ← inferWhole o item
    let element ← unify o found shape
    inferWholeItems o element rest

/-- One field for each entry with a text key. -/
def inferWholeFields (o : Options) : List (Value × Value) → Action (List Field)
  | [] => pure []
  | (key, value) :: rest =>
    match key with
    | .text k => do
      let shape ← inferWhole o value
      let fields ← inferWholeFields o rest
      pure (⟨identifierOf k, k, shape⟩ :: fields)
    | _ => inferWholeFields o rest

end

end Session

/-- No item changes `any`. -/
theorem Tree.inferItems_any {o : Options} {items : List Value} {T : Tree}
    (h : inferItems o .any items = .ok T) : T = .any := by
  cases items with
  | nil =>
    rw [inferItems] at h
    exact (Except.ok.inj h).symm
  | cons item rest =>
    obtain ⟨t, -, ⟨-, hT⟩ | ⟨hne, -⟩⟩ := inferItems_cons_eq_ok.1 h
    · exact hT
    · exact absurd (unify_any_left o t) hne

namespace Session

/-! ## Actions that may fail where the reference returns -/

section GivesIfReturns

variable {α β γ δ : Type} {R : RecordTable → α → β → Prop} {Q : RecordTable → γ → δ → Prop}
  {s : Session}

/-- If the action returns, so does the reference, and the result reads as expected. -/
def GivesIfReturns (R : RecordTable → α → β → Prop) (x : Action α) (s : Session)
    (e : Except Fault β) : Prop :=
  ∀ a s', x.run s = (.ok a, s') →
    ∃ b, e = .ok b ∧ s.Advances Tree.Unrestricted s' ∧ R s'.table a b

theorem Gives.givesIfReturns {x : Action α} {e : Except Fault β}
    (h : Gives Tree.Unrestricted R x s e) : GivesIfReturns R x s e :=
  fun _ _ hrun => h.of_run_ok hrun

theorem GivesIfReturns.pure (hs : s.table.Sound Tree.Unrestricted) {a : α} {b : β}
    (h : R s.table a b) : GivesIfReturns R (Pure.pure a) s (.ok b) :=
  (Gives.pure hs h).givesIfReturns

/-- A result is passed on to what comes next. -/
theorem GivesIfReturns.bind {x : Action α} {f : α → Action γ} {e : Except Fault β}
    {r : Except Fault δ} (h : GivesIfReturns R x s e)
    (hf : ∀ a b s', e = .ok b → s.Advances Tree.Unrestricted s' → R s'.table a b →
      GivesIfReturns Q (f a) s' r) : GivesIfReturns Q (x >>= f) s r := by
  intro c s'' hrun
  rcases hx : x.run s with ⟨fault | a, s'⟩
  · cases (run_bind_error hx).symm.trans hrun
  · obtain ⟨b, hb, hadv, hR⟩ := h a s' hx
    rw [run_bind_ok hx] at hrun
    obtain ⟨d, hd, hadv', hQ⟩ := hf a b s' hb hadv hR c s'' hrun
    exact ⟨d, hd, hadv.trans hadv', hQ⟩

end GivesIfReturns

/-! ## Inference that goes through every item -/

/-- Wherever `inferWhole` returns on the value, it returns the tree that inference finds. -/
def WholeAgrees (o : Options) (v : Value) : Prop :=
  ∀ {s : Session}, s.table.Sound Tree.Unrestricted →
    GivesIfReturns (RecordTable.Reads Tree.Unrestricted) (inferWhole o v) s (Tree.infer o v)

variable {o : Options} {s : Session}

theorem inferWholeItems_gives {items : List Value} (ih : ∀ v ∈ items, WholeAgrees o v)
    {found : Shape} (hs : s.table.Sound Tree.Unrestricted)
    (hf : s.table.Knows Tree.Unrestricted found) :
    GivesIfReturns (RecordTable.Reads Tree.Unrestricted) (inferWholeItems o found items) s
      (Tree.inferItems o (s.table.tree found) items) := by
  induction items generalizing s found with
  | nil =>
    rw [inferWholeItems, Tree.inferItems]
    exact GivesIfReturns.pure hs ⟨hf, rfl⟩
  | cons item rest ihrest =>
    rw [inferWholeItems]
    refine (ih item (List.mem_cons_self ..) hs).bind fun x T s₁ hT h₁ hx => ?_
    obtain ⟨hk, rfl⟩ := hx
    have hunify := unify_gives (Tree.inferred_unrestricted o).toKept h₁.sound (hf.grow h₁.grows) hk
    rw [h₁.grows.tree_eq hf.within] at hunify
    refine hunify.givesIfReturns.bind fun e E s₂ hE h₂ he => ?_
    obtain rfl := Except.ok.inj hE
    obtain ⟨hke, he⟩ := he
    have hrest := ihrest (fun v hv => ih v (List.mem_cons_of_mem _ hv)) h₂.sound hke
    rw [he] at hrest
    intro c s₃ hrun
    obtain ⟨C, hC, hadv, hread⟩ := hrest c s₃ hrun
    refine ⟨C, ?_, hadv, hread⟩
    rw [Tree.inferItems_cons_eq_ok]
    refine ⟨_, hT, ?_⟩
    -- Where inference leaves the array, the items that follow have left the tree as it is.
    by_cases hany : Tree.unify o (s.table.tree found) (s₁.table.tree x) = .any
    · rw [hany] at hC
      exact .inl ⟨hany, Tree.inferItems_any hC⟩
    · exact .inr ⟨hany, hC⟩

theorem inferWholeFields_gives {entries : List (Value × Value)}
    (ih : ∀ e ∈ entries, WholeAgrees o e.2) (hs : s.table.Sound Tree.Unrestricted) :
    GivesIfReturns (RecordTable.ReadsFields Tree.Unrestricted) (inferWholeFields o entries) s
      (Tree.inferFields o entries) := by
  induction entries generalizing s with
  | nil =>
    rw [inferWholeFields, Tree.inferFields]
    exact GivesIfReturns.pure hs ⟨by simp, rfl⟩
  | cons entry rest ihrest =>
    obtain ⟨key, value⟩ := entry
    have hrest : ∀ e ∈ rest, WholeAgrees o e.2 := fun e he => ih e (List.mem_cons_of_mem _ he)
    cases key with
    | text k =>
      rw [inferWholeFields, Tree.inferFields]
      refine (ih _ (List.mem_cons_self ..) hs).bind fun x T s₁ hT h₁ hx => ?_
      refine (ihrest hrest h₁.sound).bind fun fs Ts s₂ hTs h₂ hfs => ?_
      simp only at hT
      simp only [hT, hTs]
      obtain ⟨hk, rfl⟩ := hx.grow h₂.grows
      obtain ⟨hks, rfl⟩ := hfs
      refine GivesIfReturns.pure h₂.sound ⟨fun f hf => ?_, rfl⟩
      rcases List.mem_cons.1 hf with rfl | hf
      · exact hk
      · exact hks f hf
    | _ =>
      simp only [inferWholeFields, Tree.inferFields]
      exact ihrest hrest hs

theorem wholeArray_gives {items : List Value} (ih : ∀ v ∈ items, WholeAgrees o v)
    (hs : s.table.Sound Tree.Unrestricted) :
    GivesIfReturns (RecordTable.Reads Tree.Unrestricted)
      (inferWholeItems o .undefined items >>= fun e => pure (.array e)) s
      ((Tree.inferItems o .undefined items).map .array) := by
  have hundef : s.table.Knows Tree.Unrestricted .undefined :=
    ⟨Shape.within_of_handles_eq_nil rfl, trivial⟩
  refine (inferWholeItems_gives ih hs hundef).bind fun e E s₁ hE h₁ he => ?_
  obtain ⟨hk, rfl⟩ := he
  rw [RecordTable.tree_undefined] at hE
  rw [hE]
  exact GivesIfReturns.pure h₁.sound ⟨⟨hk.within, trivial⟩, rfl⟩

theorem wholeObject_gives {entries : List (Value × Value)}
    (ih : ∀ e ∈ entries, WholeAgrees o e.2) : WholeAgrees o (.object entries) := by
  intro s hs
  -- Where no entry is visited, it is inference that is run.
  have hsame : inferWhole o (.object entries) = infer o (.object entries) →
      GivesIfReturns (RecordTable.Reads Tree.Unrestricted) (inferWhole o (.object entries)) s
        (Tree.infer o (.object entries)) := fun h =>
    h ▸ (infer_gives (Tree.inferred_unrestricted o) _ hs).givesIfReturns
  by_cases hempty : entries.isEmpty = true
  · exact hsame (by rw [inferWhole, infer, if_pos hempty, if_pos hempty])
  cases hkeys : keyProblem [] (entries.map Prod.fst) with
  | some problem =>
    exact hsame (by rw [inferWhole, infer, if_neg hempty, if_neg hempty, hkeys])
  | none =>
    rw [inferWhole, Tree.infer_object, if_neg hempty, if_neg hempty, hkeys]
    refine (inferWholeFields_gives ih hs).bind fun fs Ts s₁ hTs h₁ hfs => ?_
    rw [hTs]
    exact (intern_gives h₁.sound hfs trivial).givesIfReturns

theorem inferWhole_gives (o : Options) (v : Value) : WholeAgrees o v := by
  induction v using Value.induct with
  | list items ih =>
    intro s hs
    rw [inferWhole, Tree.infer]
    exact wholeArray_gives ih hs
  | tuple items ih =>
    intro s hs
    rw [inferWhole, Tree.infer]
    exact wholeArray_gives ih hs
  | object entries ih => exact wholeObject_gives ih
  | _ =>
    intro s hs
    rw [inferWhole]
    · exact (infer_gives (Tree.inferred_unrestricted o) _ hs).givesIfReturns
    all_goals simp

/-- Leaving an array early does not show. Wherever going through every item returns, inference
returns too, with a shape of the same tree. Both shapes have outlines, which are written alike in
every format : the same text or the same fault, and the same events. -/
theorem early_exit_invisible (h : s.Worked) (o : Options) (v : Value) {whole : Shape} {u : Session}
    (hrun : (inferWhole o v).run s = (.ok whole, u)) :
    ∃ x s', (infer o v).run s = (.ok x, s') ∧ s'.table.tree x = u.table.tree whole ∧
      ∃ shown shownWhole, ((outline x).run s').1 = .ok shown ∧
        ((outline whole).run u).1 = .ok shownWhole ∧
        ∀ format validate, render format validate shown = render format validate shownWhole := by
  obtain ⟨T, hT, hadv, hread⟩ := inferWhole_gives o v h.sound whole u hrun
  have hinfer := infer_gives (Tree.inferred_unrestricted o) v h.sound
  rw [hT] at hinfer
  obtain ⟨x, s', hrun', hadv', hread'⟩ := hinfer
  obtain ⟨shown, _, hshown, -, hshows⟩ := outline_gives hadv'.sound hread'
  obtain ⟨shownWhole, _, hshown', -, hshows'⟩ := outline_gives hadv.sound hread
  rw [hadv'.grows.stem] at hshows
  rw [hadv.grows.stem] at hshows'
  refine ⟨x, s', hrun', hread'.2.trans hread.2.symm, shown, shownWhole, by rw [hshown],
    by rw [hshown'], fun format validate => render_eq_of_shows hshows hshows' format validate⟩

/-- The record of the last item is stored only if every item is gone through, and the record around
the array then has another handle. -/
theorem early_exit_invisible_skippedRecord :
    ∃ s u, (infer {} (.object [(.text "a", .list [.bool true, .int 1,
          .object [(.text "b", .null)]])])).run {} = (.ok (.record 0), s) ∧
      (inferWhole {} (.object [(.text "a", .list [.bool true, .int 1,
          .object [(.text "b", .null)]])])).run {} = (.ok (.record 1), u) ∧
      s.table.tree (.record 0) = u.table.tree (.record 1) ∧
      ∃ shown shownWhole, ((outline (.record 0)).run s).1 = .ok shown ∧
        ((outline (.record 1)).run u).1 = .ok shownWhole ∧
        ∀ format validate, render format validate shown = render format validate shownWhole := by
  have hinfer := run_of_toOption (show ((infer {} (.object [(.text "a", .list [.bool true, .int 1,
    .object [(.text "b", .null)]])])).run {}).1.toOption = some (.record 0) by decide +kernel)
  have hwhole := run_of_toOption (show ((inferWhole {} (.object [(.text "a", .list [.bool true,
    .int 1, .object [(.text "b", .null)]])])).run {}).1.toOption = some (.record 1) by
      decide +kernel)
  obtain ⟨x, s', hrun, htree, hshown⟩ := early_exit_invisible (.start "S") {} _ hwhole
  obtain ⟨hx, rfl⟩ := Prod.mk.inj (hrun.symm.trans hinfer)
  obtain rfl := Except.ok.inj hx
  exact ⟨_, _, hinfer, hwhole, htree, hshown⟩

end Session

end JsonShape
