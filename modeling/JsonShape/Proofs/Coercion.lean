import JsonShape.Proofs.Correspondence
import JsonShape.Proofs.Principal

/-!
# Texts that count as numbers

Inference can count a text as the number that it spells. If it does not, a leaf that was a number
may become a wider number or a text, and nothing else changes : scalars of every kind unify with one
another, so the two runs clash in the same places. `Tree.Widened` is what remains the same, and
`Tree.infer_widened` carries it through a whole value.
-/

namespace JsonShape

namespace Tree

/-- A leaf is left as it is, or a number becomes a wider number or a text. -/
inductive Widens : Tree → Tree → Prop
  | same (t : Tree) : Widens t t
  | fraction : Widens .int64 .float64
  | text {t : Tree} (h : t.isNumeric = true) : Widens t .string

/-- The trees have the same arrays, records, names, keys and marks. Their leaves are the same but
for numbers that are wider on the right. -/
abbrev Widened : Tree → Tree → Prop :=
  Corresponds Eq Widens

theorem Widens.kind {a b : Tree} (h : Widens a b) : a.kind = b.kind := by
  cases h with
  | text h => exact kind_of_isNumeric h
  | _ => rfl

theorem widens_iff_of_scalar {a b : Tree} (ha : a.kind = some .scalar)
    (hb : b.kind = some .scalar) : Widens a b ↔ a.breadth ≤ b.breadth := by
  constructor
  · rintro (_ | _ | _)
    · exact Nat.le_refl _
    · decide
    · cases a <;> simp [breadth]
  · intro h
    cases a <;> cases b <;> simp_all [Tree.kind, breadth]
    all_goals first | exact .same _ | exact .fraction | exact .text rfl

theorem respected_widens : Respected Widens where
  kind := Widens.kind
  any := by
    rintro a b (_ | _ | h)
    · rfl
    · simp
    · cases a <;> simp_all [isNumeric]
  refl := .same
  unify := by
    intro o o' a b a' b' ha hb hwa hwb
    have ha' := hwa.kind.symm.trans ha
    have hb' := hwb.kind.symm.trans hb
    rw [widens_iff_of_scalar ha ha'] at hwa
    rw [widens_iff_of_scalar hb hb'] at hwb
    rw [widens_iff_of_scalar (kind_unify_scalar o ha hb) (kind_unify_scalar o' ha' hb'),
      unify_scalar o ha hb, unify_scalar o' ha' hb']
    split_ifs <;> omega

end Tree

/-- In lists that are related one by one, so are the fields of a name. -/
theorem RecordOf.rel_find?_of_forall₂ {α β : Type} {R : FieldOf α → FieldOf β → Prop}
    {fs : RecordOf α} {gs : RecordOf β}
    (h : List.Forall₂ (fun f g => f.name = g.name ∧ R f g) fs gs) (n : String) :
    Option.Rel R (fs.find? n) (gs.find? n) := by
  unfold RecordOf.find?
  induction h with
  | nil => exact .none
  | @cons f g fs gs hfg _ ih =>
    rw [List.find?_cons, List.find?_cons, hfg.1]
    split
    · exact .some hfg.2
    · exact ih

namespace Tree

variable {on off : Options}

/-- A text counts as some number or as a string, and is a string where no text counts. -/
theorem widened_of_textShape (hc : off.coerceNumericStrings = false) {s : String} {x : Shape}
    (h : textShape on s = .ok x) : textShape off s = .ok .string ∧ Widened x.leafTree .string := by
  refine ⟨by rw [textShape, hc]; rfl, ?_⟩
  refine .leaf (isLeaf_of_textShape h).leafTree trivial ?_
  obtain rfl | hx := eq_string_or_countsAs h
  · exact .same _
  · obtain rfl | rfl := hx.isNumber
    · exact .text rfl
    · exact .text rfl

/-- The items widen together : if the tree found so far is `any` in one run, it is in the other. -/
theorem inferItems_widened (hf : on.optionalFields = off.optionalFields) {items : List Value}
    {found found' T : Tree}
    (ih : ∀ v ∈ items, ∀ {t : Tree}, infer on v = .ok t → ∃ t', infer off v = .ok t' ∧ Widened t t')
    (hform : Formed NamedByKey true false found) (hform' : Formed NamedByKey true false found')
    (h : Widened found found') (hT : inferItems on found items = .ok T) :
    ∃ T', inferItems off found' items = .ok T' ∧ Widened T T' := by
  induction items generalizing found found' with
  | nil =>
    rw [inferItems] at hT
    exact ⟨found', by rw [inferItems], Except.ok.inj hT ▸ h⟩
  | cons item rest ihrest =>
    obtain ⟨t, ht, hstep⟩ := inferItems_cons_eq_ok.1 hT
    obtain ⟨t', ht', htt'⟩ := ih item (List.mem_cons_self ..) ht
    have hformed : Formed NamedByKey true false t :=
      formed_of_infer (fun _ => rfl) (fun _ _ => rfl) ht
    have hformed' : Formed NamedByKey true false t' :=
      formed_of_infer (fun _ => rfl) (fun _ _ => rfl) ht'
    have hunify : Widened (unify on found t) (unify off found' t') :=
      h.unify respected_widens hf hform hformed hform' hformed' htt'
    have hany := hunify.any_iff respected_widens.toKeepsKind
    obtain ⟨hclash, rfl⟩ | ⟨hne, hrest⟩ := hstep
    · exact ⟨.any, inferItems_cons_eq_ok.2 ⟨t', ht', .inl ⟨hany.1 hclash, rfl⟩⟩,
        .leaf trivial trivial (.same _)⟩
    · obtain ⟨T', hT', hwide⟩ := ihrest (fun v hv => ih v (List.mem_cons_of_mem _ hv))
        (hform.unify (fun _ => rfl) hformed) (hform'.unify (fun _ => rfl) hformed') hunify hrest
      exact ⟨T', inferItems_cons_eq_ok.2 ⟨t', ht', .inr ⟨mt hany.2 hne, hT'⟩⟩, hwide⟩

/-- Entry by entry, the fields of an object widen. -/
theorem fields_widened {entries : List (Value × Value)} {fs : List (FieldOf Tree)}
    (ih : ∀ e ∈ entries, ∀ {t : Tree}, infer on e.2 = .ok t →
      ∃ t', infer off e.2 = .ok t' ∧ Widened t t')
    (h : List.Forall₂ (IsField on) entries fs) :
    ∃ gs, List.Forall₂ (IsField off) entries gs ∧
      List.Forall₂ (fun f g => f.name = g.name ∧ FieldsCorrespond Eq Widens f g) fs gs := by
  induction h with
  | nil => exact ⟨[], .nil, .nil⟩
  | @cons e f entries fs hf _ ihrest =>
    obtain ⟨t', ht', hwide⟩ := ih e (List.mem_cons_self ..) hf.shape
    obtain ⟨gs, hgs, hrel⟩ := ihrest fun e he => ih e (List.mem_cons_of_mem _ he)
    exact ⟨⟨f.name, f.key, t'⟩ :: gs, .cons ⟨hf.key, hf.name, ht'⟩ hgs,
      .cons ⟨rfl, rfl, hwide⟩ hrel⟩

/-- Where no text counts as a number, inference returns and finds a tree that is wider at most at
its numbers. -/
theorem infer_widened (on off : Options) (hf : on.optionalFields = off.optionalFields)
    (hc : off.coerceNumericStrings = false) {v : Value} {T : Tree} (h : infer on v = .ok T) :
    ∃ T', infer off v = .ok T' ∧ Widened T T' := by
  have hundef : Formed NamedByKey true false .undefined := .leaf (by trivial) _
  have hsame : ∀ {t : Tree}, t.IsLeaf → Widened t t := fun ht => .leaf ht ht (.same _)
  induction v using Value.induct generalizing T with
  | int n =>
    rw [infer] at h ⊢
    exact ⟨T, h, Except.ok.inj h ▸ hsame (integerShape_isLeaf n).leafTree⟩
  | text s =>
    obtain ⟨x, hx, rfl⟩ := infer_text_eq_ok.1 h
    obtain ⟨hx', hwide⟩ := widened_of_textShape hc hx
    exact ⟨.string, infer_text_eq_ok.2 ⟨.string, hx', rfl⟩, hwide⟩
  | list items ih | tuple items ih =>
    obtain ⟨E, hE, rfl⟩ := (infer_items_eq_ok rfl).1 h
    obtain ⟨E', hE', hwide⟩ := inferItems_widened hf ih hundef hundef (hsame trivial) hE
    exact ⟨.array E', (infer_items_eq_ok rfl).2 ⟨E', hE', rfl⟩, .array hwide⟩
  | object entries ih =>
    obtain ⟨rfl, rfl⟩ | ⟨hkeys, rfl⟩ | ⟨hne, hkeys, fs, hfs, rfl⟩ := infer_object_eq_ok.1 h
    · exact ⟨.undefined, infer_object_nil off, hsame trivial⟩
    · exact ⟨.any, infer_object_of_not_nameable off hkeys, hsame trivial⟩
    · obtain ⟨gs, hgs, hrel⟩ := fields_widened ih hfs
      have hnodup := nodup_names_of_forall₂ hkeys hfs
      have hnodup' := nodup_names_of_forall₂ hkeys hgs
      refine ⟨_, infer_object_eq_ok.2 (.inr (.inr ⟨hne, hkeys, gs, hgs, rfl⟩)), ?_⟩
      refine corresponds_record (RecordOf.ascending_sorted hnodup)
        (RecordOf.ascending_sorted hnodup') fun n => ?_
      rw [RecordOf.find?_sorted hnodup, RecordOf.find?_sorted hnodup']
      exact RecordOf.rel_find?_of_forall₂ hrel n
  | _ =>
    rw [infer] at h ⊢
    exact ⟨T, h, Except.ok.inj h ▸ hsame trivial⟩

end Tree

namespace Session

/-- Counting no text as a number widens numbers and changes nothing else. Over any two tables, if
inference returns where texts count, it returns where they do not. The trees found then have the
same arrays, records, names, keys and marks, and `any`, `undefined` and booleans in the same places;
a leaf differs only where the first tree has a number and the second a wider number or a text. -/
theorem infer_uncoerced_widens {s₁ s₂ s₁' : Session} (h₁ : s₁.Worked) (h₂ : s₂.Worked) (o : Options)
    (v : Value) {x : Shape}
    (hrun : (infer { o with coerceNumericStrings := true } v).run s₁ = (.ok x, s₁')) :
    ∃ y s₂', (infer { o with coerceNumericStrings := false } v).run s₂ = (.ok y, s₂') ∧
      (s₁'.table.tree x).Widened (s₂'.table.tree y) := by
  have hon := infer_gives (Tree.inferred_unrestricted { o with coerceNumericStrings := true }) v
    h₁.sound
  have hoff := infer_gives (Tree.inferred_unrestricted { o with coerceNumericStrings := false }) v
    h₂.sound
  obtain ⟨T, hT, -, -, hx⟩ := hon.of_run_ok hrun
  obtain ⟨T', hT', hwide⟩ := Tree.infer_widened { o with coerceNumericStrings := true }
    { o with coerceNumericStrings := false } rfl rfl hT
  rw [hT'] at hoff
  obtain ⟨y, s₂', hrun', -, -, hy⟩ := hoff
  exact ⟨y, s₂', hrun', by rwa [hx, hy]⟩

/-- Two objects with one key, under which there is a text that spells an integer and an integer. -/
theorem infer_uncoerced_widens_textAndInteger :
    ∃ s₁ y s₂,
      (infer {} (.list [.object [(.text "n", .text "12")], .object [(.text "n", .int 3)]])).run {} =
        (.ok (.array (.record 0)), s₁) ∧
      (infer { coerceNumericStrings := false }
        (.list [.object [(.text "n", .text "12")], .object [(.text "n", .int 3)]])).run {} =
          (.ok y, s₂) ∧
      (s₁.table.tree (.array (.record 0))).Widened (s₂.table.tree y) := by
  have hrun := run_of_toOption (s := {})
    (x := infer {} (.list [.object [(.text "n", .text "12")], .object [(.text "n", .int 3)]]))
    (a := .array (.record 0)) (by decide +kernel)
  obtain ⟨y, s₂, hrun', hwide⟩ := infer_uncoerced_widens (.start "S") (.start "S") {} _ hrun
  exact ⟨_, y, s₂, hrun, hrun', hwide⟩

end Session

end JsonShape
