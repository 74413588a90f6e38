import JsonShape.Proofs.Canonical
import JsonShape.Proofs.Columns
import JsonShape.Proofs.KeyOrder
import JsonShape.Proofs.NumberGrammar

/-!
# What inference visits

Inference passes over parts of a value : it enters no object whose keys cannot name fields, and it
leaves an array when the items so far have nothing in common. `Session.Visits` says which parts it
comes to, by what their neighbours unify to.

Among them only a text can stop it, and only an integer literal with too many digits where texts
count as numbers (`Session.infer_fails_iff`).
-/

namespace JsonShape

/-! ## Items unified one after another -/

/-- Takes an item into the shape found so far. -/
def Session.unifyItem (o : Options) (found : Shape) (item : Value) : Action Shape := do
  let shape ← infer o item
  unify o found shape

/-- Takes an item into the tree found so far. -/
noncomputable def Tree.unifyItem (o : Options) (found : Tree) (item : Value) : Except Fault Tree :=
  (infer o item).map (unify o found)

namespace Session

variable {P : Tree → Prop} {o : Options}

theorem unifyItem_gives (hP : Tree.Inferred o P) {s : Session} (hs : s.table.Sound P)
    {found : Shape} (hf : s.table.Knows P found) (item : Value) :
    Gives P (RecordTable.Reads P) (unifyItem o found item) s
      (Tree.unifyItem o (s.table.tree found) item) := by
  have hitem := infer_gives hP item hs
  unfold unifyItem Tree.unifyItem
  cases hT : Tree.infer o item with
  | error fault =>
    rw [hT] at hitem
    exact hitem.bind_error
  | ok T =>
    rw [hT] at hitem
    refine hitem.bind fun x s₁ h₁ hx => ?_
    obtain ⟨hk, rfl⟩ := hx
    have hunify := unify_gives hP.toKept h₁.sound (hf.grow h₁.grows) hk
    rw [h₁.grows.tree_eq hf.within] at hunify
    exact hunify

theorem foldlM_unifyItem_gives (hP : Tree.Inferred o P) {s : Session} (hs : s.table.Sound P)
    {found : Shape} (hf : s.table.Knows P found) (items : List Value) :
    Gives P (RecordTable.Reads P) (items.foldlM (unifyItem o) found) s
      (items.foldlM (Tree.unifyItem o) (s.table.tree found)) := by
  induction items generalizing s found with
  | nil => exact Gives.pure hs ⟨hf, rfl⟩
  | cons item rest ih =>
    rw [List.foldlM_cons, List.foldlM_cons]
    have hitem := unifyItem_gives hP hs hf item
    cases hT : Tree.unifyItem o (s.table.tree found) item with
    | error fault =>
      rw [hT] at hitem
      exact hitem.bind_error
    | ok T =>
      rw [hT] at hitem
      refine hitem.bind fun x s₁ h₁ hx => ?_
      obtain ⟨hk, rfl⟩ := hx
      exact ih h₁.sound hk

/-- The items have nothing in common : one after another they unify to `any`. -/
def Clash (o : Options) (items : List Value) : Prop :=
  ∃ s, (items.foldlM (unifyItem o) .undefined).run {} = (.ok .any, s)

theorem clash_iff {items : List Value} :
    Clash o items ↔ items.foldlM (Tree.unifyItem o) .undefined = .ok .any := by
  have hknown : ({} : RecordTable).Knows Tree.Unrestricted .undefined :=
    ⟨Shape.within_of_handles_eq_nil rfl, trivial⟩
  have hgives := foldlM_unifyItem_gives (Tree.inferred_unrestricted o) (Worked.start "S").sound
    hknown items
  rw [RecordTable.tree_undefined] at hgives
  constructor
  · rintro ⟨s, hrun⟩
    obtain ⟨T, hT, -, -, rfl⟩ := hgives.of_run_ok hrun
    exact hT
  · intro hT
    rw [hT] at hgives
    obtain ⟨x, s, hrun, hadv, hk, hx⟩ := hgives
    have hany : x = .any :=
      (RecordTable.tree_eq_leaf_iff (l := .any) hadv.sound.grounded hk.within trivial).1 hx
    exact ⟨s, hany ▸ hrun⟩

/-- The parts of a value that inference comes to. -/
inductive Visits (o : Options) : Value → Value → Prop
  /-- The value itself. -/
  | here (v : Value) : Visits o v v
  /-- An item, unless items before it have nothing in common. -/
  | item {v x w : Value} {before after : List Value}
    (hitems : v.items? = some (before ++ x :: after)) (hopen : ∀ p, p <+: before → ¬ Clash o p)
    (h : Visits o x w) : Visits o v w
  /-- The value of an entry, if the keys can name fields. -/
  | entry {entries : List (Value × Value)} {e : Value × Value} {w : Value}
    (hkeys : Nameable (entries.map Prod.fst)) (he : e ∈ entries) (h : Visits o e.2 w) :
    Visits o (.object entries) w

end Session

/-! ## Faults of items -/

namespace Tree

variable {o : Options}

theorem unifyItem_of_infer {found t : Tree} {item : Value} (h : infer o item = .ok t) :
    unifyItem o found item = .ok (unify o found t) := by
  rw [unifyItem, h]
  rfl

/-- If taking in items fails, it fails on an item before which nothing clashes. -/
theorem exists_item_of_inferItems {found : Tree} (hfound : found ≠ .any) {items : List Value}
    {fault : Fault} (h : inferItems o found items = .error fault) :
    ∃ before x after, items = before ++ x :: after ∧ infer o x = .error fault ∧
      ∀ p, p <+: before → p.foldlM (unifyItem o) found ≠ .ok .any := by
  -- The tree found so far is never `any`, or the items would have been left.
  have hnil : ([] : List Value).foldlM (unifyItem o) found ≠ .ok .any :=
    fun hany => hfound (Except.ok.inj hany)
  induction items generalizing found with
  | nil =>
    rw [inferItems] at h
    cases h
  | cons item rest ih =>
    rw [inferItems] at h
    cases hT : infer o item with
    | error fault' =>
      rw [hT] at h
      obtain rfl := Except.error.inj h
      refine ⟨[], item, rest, rfl, hT, fun p hp => ?_⟩
      rw [List.prefix_nil.1 hp]
      exact hnil
    | ok t =>
      rw [hT] at h
      simp only at h
      split_ifs at h with hany
      obtain ⟨before, x, after, rfl, hx, hopen⟩ :=
        ih hany h fun hnext => hany (Except.ok.inj hnext)
      refine ⟨item :: before, x, after, rfl, hx, fun p hp => ?_⟩
      rcases List.prefix_cons_iff.1 hp with rfl | ⟨q, rfl, hq⟩
      · exact hnil
      · rw [List.foldlM_cons, unifyItem_of_infer hT]
        exact hopen q hq

/-- Taking in items fails if it comes to an item on which inference fails. -/
theorem inferItems_fails {found : Tree} {before after : List Value} {x : Value} {fault : Fault}
    (hx : infer o x = .error fault)
    (hopen : ∀ p, p <+: before → p.foldlM (unifyItem o) found ≠ .ok .any) :
    ∃ fault', inferItems o found (before ++ x :: after) = .error fault' := by
  induction before generalizing found with
  | nil => exact ⟨fault, by rw [List.nil_append, inferItems, hx]⟩
  | cons item before ih =>
    rw [List.cons_append, inferItems]
    cases hT : infer o item with
    | error fault' => exact ⟨fault', rfl⟩
    | ok t =>
      have hstep : ∀ p, (item :: p).foldlM (unifyItem o) found =
          p.foldlM (unifyItem o) (unify o found t) := by
        intro p
        rw [List.foldlM_cons, unifyItem_of_infer hT]
        rfl
      have hne : unify o found t ≠ .any := by
        intro hany
        refine hopen [item] (List.prefix_append [item] before) ?_
        rw [hstep, hany]
        rfl
      simp only
      rw [if_neg hne]
      refine ih fun p hp => ?_
      rw [← hstep]
      exact hopen (item :: p) (List.prefix_cons_inj item |>.2 hp)

/-- An object fails if the value of an entry does. -/
theorem infer_object_fails {entries : List (Value × Value)}
    (hkeys : Nameable (entries.map Prod.fst)) {e : Value × Value} (he : e ∈ entries) {fault : Fault}
    (h : infer o e.2 = .error fault) : ∃ fault', infer o (.object entries) = .error fault' := by
  cases hT : infer o (.object entries) with
  | error fault' => exact ⟨fault', rfl⟩
  | ok T =>
    obtain ⟨rfl, -⟩ | ⟨hnot, -⟩ | ⟨-, -, fs, hfs, -⟩ := infer_object_eq_ok.1 hT
    · cases he
    · exact absurd hkeys hnot
    · obtain ⟨f, -, hf⟩ := exists_of_forall₂_left hfs he
      cases hf.shape.symm.trans h

theorem infer_of_items {v : Value} {items : List Value} (hv : v.items? = some items) :
    infer o v = (inferItems o .undefined items).map .array := by
  cases v with
  | list xs =>
    obtain rfl := Option.some.inj hv
    rw [infer]
  | tuple xs =>
    obtain rfl := Option.some.inj hv
    rw [infer]
  | _ => cases hv

end Tree

namespace Session

variable {o : Options}

/-- A part on which inference fails fails the value, if inference comes to it. -/
theorem Visits.fails {v w : Value} (hvisits : Visits o v w)
    (hw : ∃ fault, Tree.infer o w = .error fault) : ∃ fault, Tree.infer o v = .error fault := by
  induction hvisits with
  | here => exact hw
  | item hitems hopen _ ih =>
    obtain ⟨fault, hx⟩ := ih hw
    obtain ⟨fault', hfails⟩ := Tree.inferItems_fails hx fun p hp => mt clash_iff.2 (hopen p hp)
    exact ⟨fault', by rw [Tree.infer_of_items hitems, hfails]; rfl⟩
  | entry hkeys he _ ih =>
    obtain ⟨fault, hx⟩ := ih hw
    exact Tree.infer_object_fails hkeys he hx

/-- Items fail at an item that inference comes to. -/
theorem exists_visited_item {v : Value} {items : List Value} (hv : v.items? = some items)
    {fault : Fault} (h : Tree.infer o v = .error fault) :
    ∃ x ∈ items, Tree.infer o x = .error fault ∧ ∀ w, Visits o x w → Visits o v w := by
  rw [Tree.infer_of_items hv] at h
  obtain ⟨before, x, after, rfl, hx, hopen⟩ :=
    Tree.exists_item_of_inferItems (by simp) (error_of_map h)
  refine ⟨x, by simp, hx, fun w hw => .item hv (fun p hp => ?_) hw⟩
  exact mt clash_iff.1 (hopen p hp)

/-- Inference fails at a text that it comes to. -/
theorem exists_visited_text {v : Value} {fault : Fault} (h : Tree.infer o v = .error fault) :
    o.coerceNumericStrings = true ∧
      ∃ text, Visits o v (.text text) ∧ numberTextShape text = .error fault := by
  induction v using Value.induct with
  | text s =>
    rw [Tree.infer] at h
    obtain ⟨hc, hs⟩ := fault_of_textShape (error_of_map h)
    exact ⟨hc, s, .here _, hs⟩
  | list items ih =>
    obtain ⟨x, hmem, hx, hvisits⟩ := exists_visited_item rfl h
    obtain ⟨hc, text, htext, hs⟩ := ih x hmem hx
    exact ⟨hc, text, hvisits _ htext, hs⟩
  | tuple items ih =>
    obtain ⟨x, hmem, hx, hvisits⟩ := exists_visited_item rfl h
    obtain ⟨hc, text, htext, hs⟩ := ih x hmem hx
    exact ⟨hc, text, hvisits _ htext, hs⟩
  | object entries ih =>
    by_cases hne : entries = []
    · rw [hne, Tree.infer_object_nil] at h
      cases h
    by_cases hkeys : Nameable (entries.map Prod.fst)
    · rw [Tree.infer_object_of_nameable o hne hkeys] at h
      obtain ⟨e, he, hfault⟩ := Tree.fault_of_inferFields (error_of_map h)
      obtain ⟨hc, text, htext, hs⟩ := ih e he hfault
      exact ⟨hc, text, .entry hkeys he htext, hs⟩
    · rw [Tree.infer_object_of_not_nameable o hkeys] at h
      cases h
  | _ =>
    rw [Tree.infer] at h
    cases h

theorem infer_text_fails_iff {s : String} : (∃ fault, Tree.infer o (.text s) = .error fault) ↔
    o.coerceNumericStrings = true ∧ IsLongInteger s := by
  rw [← numberTextShape_error_iff]
  constructor
  · rintro ⟨fault, h⟩
    rw [Tree.infer] at h
    obtain ⟨hc, hs⟩ := fault_of_textShape (error_of_map h)
    exact ⟨hc, fault, hs⟩
  · rintro ⟨hc, fault, hs⟩
    exact ⟨fault, by rw [Tree.infer, textShape, if_pos hc, hs]; rfl⟩

/-- Inference fails exactly if texts count as numbers and it comes to an integer literal with too
many digits. It then tells the number of digits of such a literal, and it never fails otherwise. -/
theorem infer_fails_iff {s : Session} (h : s.Worked) (o : Options) (v : Value) :
    ((∃ fault s', (infer o v).run s = (.error fault, s')) ↔
      o.coerceNumericStrings = true ∧ ∃ text, Visits o v (.text text) ∧ IsLongInteger text) ∧
    ∀ fault s', (infer o v).run s = (.error fault, s') →
      ∃ text, Visits o v (.text text) ∧ ∃ l : NumberLiteral, l.Spells text.toList ∧ l.IsLong ∧
        fault = .integerTooLong l.whole.length := by
  have hgives := infer_gives (Tree.inferred_unrestricted o) v h.sound
  cases hT : Tree.infer o v with
  | ok T =>
    rw [hT] at hgives
    obtain ⟨x, s', hrun, -⟩ := hgives
    have hreturns : ∀ fault s', (infer o v).run s ≠ (.error fault, s') := by
      intro fault s'' herror
      cases hrun.symm.trans herror
    refine ⟨⟨?_, ?_⟩, fun fault s' herror => absurd herror (hreturns fault s')⟩
    · rintro ⟨fault, s', herror⟩
      exact absurd herror (hreturns fault s')
    · rintro ⟨hc, text, hvisits, hlong⟩
      obtain ⟨fault, hfault⟩ := hvisits.fails (infer_text_fails_iff.2 ⟨hc, hlong⟩)
      cases hT.symm.trans hfault
  | error fault =>
    rw [hT] at hgives
    obtain ⟨s', hrun, -⟩ := hgives
    obtain ⟨hc, text, hvisits, hs⟩ := exists_visited_text hT
    obtain ⟨l, hl, hlong, rfl⟩ := exists_isLong_of_numberTextShape hs
    refine ⟨⟨fun _ => ⟨hc, text, hvisits, l, hl, hlong⟩, fun _ => ⟨_, s', hrun⟩⟩, ?_⟩
    intro fault s'' herror
    cases hrun.symm.trans herror
    exact ⟨text, hvisits, l, hl, hlong, rfl⟩

/-- An over-long literal after a clash is passed over, and one before it is met. -/
theorem infer_fails_iff_clash :
    (∃ s, (infer {} (.list [.bool true, .int 1, .text (ones 4301)])).run {} =
        (.ok (.array .any), s)) ∧
      (¬ ∃ text, Visits {} (.list [.bool true, .int 1, .text (ones 4301)]) (.text text) ∧
        IsLongInteger text) ∧
      ∃ fault s, (infer {}
        (.list [.int 1, .object [(.text "a", .text (ones 4301))], .bool true])).run {} =
          (.error fault, s) := by
  have hrun : (infer {} (.list [.bool true, .int 1, .text (ones 4301)])).run {} =
      (.ok (.array .any), _) := rfl
  refine ⟨⟨_, hrun⟩, ?_, ?_⟩
  · intro hvisits
    obtain ⟨fault, s, herror⟩ := (infer_fails_iff (.start "S") {} _).1.2 ⟨rfl, hvisits⟩
    cases hrun.symm.trans herror
  · refine (infer_fails_iff (.start "S") {} _).1.2 ⟨rfl, ones 4301, ?_, ?_⟩
    · refine @Visits.item _ _ _ _ [.int 1] _ rfl (fun p hp => ?_)
        (.entry (keyProblem_eq_none_iff.1 rfl) (List.mem_singleton.2 rfl) (.here _))
      rcases List.prefix_cons_iff.1 hp with rfl | ⟨q, rfl, hq⟩
      · rintro ⟨s, ⟨⟩⟩
      · rw [List.prefix_nil.1 hq]
        rintro ⟨s, ⟨⟩⟩
    · exact numberTextShape_error_iff.1 ⟨_, numberTextShape_ones (by decide)⟩

end Session

end JsonShape
