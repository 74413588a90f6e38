import JsonShape.Proofs.Order
import JsonShape.Proofs.Reached

/-!
# Principal trees

`Tree.Accepts` says which values a tree describes, without looking at inference : a scalar takes its
own values and those of the scalars below it, an array takes lists of what its element takes, and a
record takes objects whose keys name fields of the record, with values that those fields take. Null
and the empty object are taken by every tree.

What inference finds for a value takes the value (`Tree.accepts_of_infer`), and is below every tree
that takes it (`Tree.below_of_accepts`). `Session.infer_principal` says so of a session : inference
returns the principal shape of a value, or stops at an integer literal that is too long.
-/

namespace JsonShape

/-- A number, and no truth value. -/
def Value.IsNumber : Value → Prop
  | .int _ | .decimal _ | .float _ => True
  | _ => False

theorem Value.IsNumber.items? {v : Value} (h : v.IsNumber) : v.items? = none := by
  cases v with
  | list _ | tuple _ => exact h.elim
  | _ => rfl

/-- Number literals in texts count as numbers, and the text is one of that shape. -/
structure CountsAs (o : Options) (s : String) (x : Shape) : Prop where
  coerced : o.coerceNumericStrings = true
  literal : numberTextShape s = .ok (some x)

theorem integerShape_cases (n : Int) :
    (integerShape n = .int64 ∧ -0x8000000000000000 ≤ n ∧ n ≤ 0x7FFFFFFFFFFFFFFF) ∨
      (integerShape n = .float64 ∧ ¬(-0x8000000000000000 ≤ n ∧ n ≤ 0x7FFFFFFFFFFFFFFF)) := by
  unfold integerShape
  split
  · exact Or.inl ⟨rfl, ‹_›⟩
  · exact Or.inr ⟨rfl, ‹_›⟩

section Text

variable {o : Options} {s : String} {x : Shape}

theorem CountsAs.isNumber (h : CountsAs o s x) : x = .int64 ∨ x = .float64 := by
  have hx := h.literal
  unfold numberTextShape at hx
  split at hx
  · cases hx
  · split_ifs at hx
    · obtain rfl := Option.some.inj (Except.ok.inj hx)
      exact (integerShape_cases _).imp And.left And.left
    · exact Or.inr (Option.some.inj (Except.ok.inj hx)).symm

theorem CountsAs.textShape (h : CountsAs o s x) : textShape o s = .ok x := by
  rw [JsonShape.textShape, if_pos h.coerced, h.literal]
  rfl

/-- A text is a string, unless it counts as a number. -/
theorem eq_string_or_countsAs (h : textShape o s = .ok x) : x = .string ∨ CountsAs o s x := by
  unfold JsonShape.textShape at h
  split_ifs at h with hc
  · cases hs : numberTextShape s with
    | error fault =>
      rw [hs] at h
      cases h
    | ok found =>
      rw [hs] at h
      obtain rfl := Except.ok.inj h
      cases found with
      | none => exact Or.inl rfl
      | some y => exact Or.inr ⟨hc, hs⟩
  · exact Or.inl (Except.ok.inj h).symm

end Text

/-- The tree takes the value. -/
inductive Tree.Accepts (o : Options) : Tree → Value → Prop
  | null (t : Tree) : Accepts o t .null
  | emptyObject (t : Tree) : Accepts o t (.object [])
  | any (v : Value) : Accepts o .any v
  | bool (b : Bool) : Accepts o .bool (.bool b)
  | int64 {n : Int} (h : -0x8000000000000000 ≤ n ∧ n ≤ 0x7FFFFFFFFFFFFFFF) :
    Accepts o .int64 (.int n)
  | int64Text {s : String} (h : CountsAs o s .int64) : Accepts o .int64 (.text s)
  | float64 {v : Value} (h : v.IsNumber) : Accepts o .float64 v
  | float64Text {s : String} {x : Shape} (h : CountsAs o s x) : Accepts o .float64 (.text s)
  | string (s : String) : Accepts o .string (.text s)
  | stringNumber {v : Value} (h : v.IsNumber) : Accepts o .string v
  | list {e : Tree} {items : List Value} (h : ∀ v ∈ items, Accepts o e v) :
    Accepts o (.array e) (.list items)
  | tuple {e : Tree} {items : List Value} (h : ∀ v ∈ items, Accepts o e v) :
    Accepts o (.array e) (.tuple items)
  | record {fs : List (FieldOf Tree)} {entries : List (Value × Value)} (hne : entries ≠ [])
    (hkeys : Nameable (entries.map Prod.fst))
    (hn : ∀ e ∈ entries, ∀ n, e.1.identifier? = some n → n ∈ RecordOf.names fs)
    (h : ∀ e ∈ entries, ∀ n, e.1.identifier? = some n →
      ∀ f, RecordOf.find? fs n = some f → Accepts o f.shape e.2) :
    Accepts o (.record fs) (.object entries)
  | optional {x : Tree} {v : Value} (h : Accepts o x v) : Accepts o (.optional x) v

/-- The shape takes the value, its handles read in a table. -/
def RecordTable.Accepts (t : RecordTable) (o : Options) (x : Shape) (v : Value) : Prop :=
  (t.tree x).Accepts o v

namespace Tree

variable {o : Options}

@[simp] theorem accepts_optional {x : Tree} {v : Value} :
    Accepts o (.optional x) v ↔ Accepts o x v := by
  refine ⟨fun h => ?_, .optional⟩
  cases h with
  | null => exact .null _
  | emptyObject => exact .emptyObject _
  | optional h => exact h

theorem accepts_core {t : Tree} {v : Value} : Accepts o t.core v ↔ Accepts o t v := by
  induction t with
  | optional x ih => exact ih.trans accepts_optional.symm
  | _ => exact Iff.rfl

theorem Accepts.of_items {E : Tree} {v : Value} {items : List Value} (hv : v.items? = some items)
    (h : ∀ x ∈ items, Accepts o E x) : Accepts o (.array E) v := by
  cases v with
  | list xs =>
    obtain rfl := Option.some.inj hv
    exact .list h
  | tuple xs =>
    obtain rfl := Option.some.inj hv
    exact .tuple h
  | _ => cases hv

theorem accepts_items_iff {S : Tree} {v : Value} {items : List Value}
    (hv : v.items? = some items) : Accepts o S v ↔
      S.core = .any ∨ ∃ E, S.core = .array E ∧ ∀ x ∈ items, Accepts o E x := by
  rw [← accepts_core]
  have hopt := core_not_isOptional S
  constructor
  · intro h
    generalize S.core = C at h hopt
    cases h with
    | any => exact Or.inl rfl
    | list h | tuple h =>
      obtain rfl := Option.some.inj hv
      exact Or.inr ⟨_, rfl, h⟩
    | float64 h | stringNumber h => cases hv.symm.trans h.items?
    | optional => cases hopt
    | _ => cases hv
  · rintro (h | ⟨E, h, hitems⟩)
    · exact h ▸ .any _
    · exact h ▸ .of_items hv hitems

/-- The record has a field for the entry, and the field takes the entry's value. -/
def TakesEntry (o : Options) (fs : List (FieldOf Tree)) (e : Value × Value) : Prop :=
  ∀ n, e.1.identifier? = some n →
    n ∈ RecordOf.names fs ∧ ∀ f, RecordOf.find? fs n = some f → Accepts o f.shape e.2

theorem accepts_object_iff {S : Tree} {entries : List (Value × Value)} (hne : entries ≠ []) :
    Accepts o S (.object entries) ↔ S.core = .any ∨ ∃ fs, S.core = .record fs ∧
      Nameable (entries.map Prod.fst) ∧ ∀ e ∈ entries, TakesEntry o fs e := by
  rw [← accepts_core]
  have hopt := core_not_isOptional S
  constructor
  · intro h
    generalize S.core = C at h hopt
    cases h with
    | emptyObject => exact absurd rfl hne
    | any => exact Or.inl rfl
    | record _ hkeys hn h =>
      exact Or.inr ⟨_, rfl, hkeys, fun e he n hname => ⟨hn e he n hname, h e he n hname⟩⟩
    | float64 h => exact h.elim
    | stringNumber h => exact h.elim
    | optional => cases hopt
  · rintro (h | ⟨fs, h, hkeys, hentries⟩)
    · exact h ▸ .any _
    · exact h ▸ .record hne hkeys (fun e he n hname => (hentries e he n hname).1)
        fun e he n hname => (hentries e he n hname).2

/-! ## More is taken further up -/

theorem Accepts.mono {a b : Tree} {v : Value} (h : Accepts o a v) (hab : Below a b) :
    Accepts o b v := by
  induction hab generalizing v with
  | undefined =>
    cases h with
    | null => exact .null _
    | emptyObject => exact .emptyObject _
  | any => exact .any v
  | leaf => exact h
  | int64_float64 =>
    cases h with
    | null => exact .null _
    | emptyObject => exact .emptyObject _
    | int64 => exact .float64 trivial
    | int64Text h => exact .float64Text h
  | int64_string =>
    cases h with
    | null => exact .null _
    | emptyObject => exact .emptyObject _
    | int64 => exact .stringNumber trivial
    | int64Text h => exact .string _
  | float64_string =>
    cases h with
    | null => exact .null _
    | emptyObject => exact .emptyObject _
    | float64 h => exact .stringNumber h
    | float64Text h => exact .string _
  | array _ ih =>
    cases h with
    | null => exact .null _
    | emptyObject => exact .emptyObject _
    | list h => exact .list fun w hw => ih (h w hw)
    | tuple h => exact .tuple fun w hw => ih (h w hw)
  | record hn _ ih =>
    cases h with
    | null => exact .null _
    | emptyObject => exact .emptyObject _
    | record hne hkeys hnames h =>
      refine .record hne hkeys (fun e he n hname => ?_) fun e he n hname g hg => ?_
      · obtain ⟨f, hf, rfl⟩ := RecordOf.mem_names.1 (hnames e he n hname)
        exact hn f hf
      · obtain ⟨f, hf⟩ := RecordOf.exists_find? (hnames e he n hname)
        obtain rfl := RecordOf.name_of_find? hf
        exact ih f (RecordOf.mem_of_find? hf) g hg (h e he _ hname f hf)
  | optionalLeft _ ih => exact ih (accepts_optional.1 h)
  | optionalRight _ ih => exact .optional (ih h)

/-! ## The inferred tree takes the value -/

theorem accepts_of_inferItems {items : List Value} {found E : Tree}
    (ih : ∀ v ∈ items, ∀ {T : Tree}, infer o v = .ok T → Accepts o T v)
    (hfound : Formed NamedByKey true false found) (h : inferItems o found items = .ok E) :
    (∀ v, Accepts o found v → Accepts o E v) ∧ ∀ v ∈ items, Accepts o E v := by
  induction items generalizing found with
  | nil =>
    rw [inferItems] at h
    obtain rfl := Except.ok.inj h
    exact ⟨fun v hv => hv, by simp⟩
  | cons item rest ihrest =>
    obtain ⟨t, ht, ⟨-, rfl⟩ | ⟨-, h⟩⟩ := inferItems_cons_eq_ok.1 h
    · exact ⟨fun v _ => .any v, fun v _ => .any v⟩
    have hform : Formed NamedByKey true false t :=
      formed_of_infer (fun _ => rfl) (fun _ _ => rfl) ht
    obtain ⟨hleft, hright⟩ := (hfound.unifies o hform).upper hfound hform
    obtain ⟨hkeep, hrest⟩ := ihrest (fun v hv => ih v (List.mem_cons_of_mem _ hv))
      (hfound.unify (fun _ => rfl) hform) h
    refine ⟨fun v hv => hkeep v (hv.mono hleft), fun v hv => ?_⟩
    rcases List.mem_cons.1 hv with rfl | hv
    · exact hkeep _ ((ih _ (List.mem_cons_self ..) ht).mono hright)
    · exact hrest v hv

theorem accepts_integerShape (n : Int) : Accepts o (integerShape n).leafTree (.int n) := by
  rcases integerShape_cases n with ⟨h, hn⟩ | ⟨h, -⟩
  · exact h ▸ .int64 hn
  · exact h ▸ .float64 trivial

theorem accepts_of_textShape {s : String} {x : Shape} (h : textShape o s = .ok x) :
    Accepts o x.leafTree (.text s) := by
  rcases eq_string_or_countsAs h with rfl | hc
  · exact .string s
  · rcases hc.isNumber with rfl | rfl
    · exact .int64Text hc
    · exact .float64Text hc

/-- The tree that inference finds for a value takes the value. -/
theorem accepts_of_infer {v : Value} {T : Tree} (h : infer o v = .ok T) : Accepts o T v := by
  have hundef : Formed NamedByKey true false .undefined := .leaf (by trivial) _
  induction v using Value.induct generalizing T with
  | null => exact .null T
  | bool b =>
    rw [infer] at h
    exact Except.ok.inj h ▸ .bool b
  | int n =>
    rw [infer] at h
    exact Except.ok.inj h ▸ accepts_integerShape n
  | decimal d =>
    rw [infer] at h
    exact Except.ok.inj h ▸ .float64 trivial
  | float x =>
    rw [infer] at h
    exact Except.ok.inj h ▸ .float64 trivial
  | text s =>
    obtain ⟨x, hx, rfl⟩ := infer_text_eq_ok.1 h
    exact accepts_of_textShape hx
  | list items ih =>
    obtain ⟨E, hE, rfl⟩ := (infer_items_eq_ok rfl).1 h
    exact .list (accepts_of_inferItems ih hundef hE).2
  | tuple items ih =>
    obtain ⟨E, hE, rfl⟩ := (infer_items_eq_ok rfl).1 h
    exact .tuple (accepts_of_inferItems ih hundef hE).2
  | object entries ih =>
    obtain ⟨rfl, rfl⟩ | ⟨-, rfl⟩ | ⟨hne, hkeys, fs, hfs, rfl⟩ := infer_object_eq_ok.1 h
    · exact .emptyObject _
    · exact .any _
    · have hnodup := nodup_names_of_forall₂ hkeys hfs
      have hfield : ∀ e ∈ entries, ∀ n, e.1.identifier? = some n →
          ∃ f ∈ fs, f.name = n ∧ infer o e.2 = .ok f.shape := by
        intro e he n hn
        obtain ⟨f, hf, hef⟩ := exists_of_forall₂_left hfs he
        exact ⟨f, hf, Option.some.inj (hef.identifier.symm.trans hn), hef.shape⟩
      refine .record hne hkeys (fun e he n hn => ?_) fun e he n hn g hg => ?_
      · obtain ⟨f, hf, rfl, -⟩ := hfield e he n hn
        exact RecordOf.name_mem_names (RecordOf.mem_sorted.2 hf)
      · obtain ⟨f, hf, rfl, hshape⟩ := hfield e he n hn
        rw [RecordOf.find?_sorted hnodup, RecordOf.find?_eq_some_iff hnodup] at hg
        obtain rfl := RecordOf.eq_of_name_eq hnodup hg.1 hf hg.2
        exact ih e he hshape
  | foreign f =>
    rw [infer] at h
    exact Except.ok.inj h ▸ .any _

/-! ## The inferred tree is below all that take the value -/

/-- Optional marks on a tree that takes a value do not matter. -/
theorem below_of_accepts_core {T S : Tree} {v : Value} (hS : Accepts o S v)
    (h : ∀ C, C.isOptional = false → Accepts o C v → Below T C) : Below T S :=
  below_of_core (h S.core (core_not_isOptional S) (accepts_core.2 hS))

theorem below_of_inferItems {items : List Value} {found E S : Tree}
    (ih : ∀ v ∈ items, ∀ {T S : Tree}, infer o v = .ok T → Accepts o S v → Below T S)
    (hfound : Formed NamedByKey true false found) (h : inferItems o found items = .ok E)
    (hbelow : Below found S) (hS : ∀ v ∈ items, Accepts o S v) : Below E S := by
  induction items generalizing found with
  | nil =>
    rw [inferItems] at h
    exact Except.ok.inj h ▸ hbelow
  | cons item rest ihrest =>
    obtain ⟨t, ht, hrest⟩ := inferItems_cons_eq_ok.1 h
    have hform : Formed NamedByKey true false t :=
      formed_of_infer (fun _ => rfl) (fun _ _ => rfl) ht
    have hitem := ih item (List.mem_cons_self ..) ht (hS item (List.mem_cons_self ..))
    have hunify := (hfound.unifies o hform).least hbelow hitem
    rcases hrest with ⟨hany, rfl⟩ | ⟨-, h⟩
    · exact hany ▸ hunify
    · exact ihrest (fun v hv => ih v (List.mem_cons_of_mem _ hv))
        (hfound.unify (fun _ => rfl) hform) h hunify fun v hv => hS v (List.mem_cons_of_mem _ hv)

/-- The tree that inference finds for a value is below every tree that takes the value. -/
theorem below_of_accepts {v : Value} {T S : Tree} (h : infer o v = .ok T) (hS : Accepts o S v) :
    Below T S := by
  have hundef : Formed NamedByKey true false .undefined := .leaf (by trivial) _
  induction v using Value.induct generalizing T S with
  | null =>
    rw [infer] at h
    exact Except.ok.inj h ▸ .undefined S
  | bool b =>
    rw [infer] at h
    obtain rfl := Except.ok.inj h
    refine below_of_accepts_core hS fun C hopt hC => ?_
    cases hC with
    | any => exact .any _
    | bool => exact .leaf trivial
    | float64 h => exact h.elim
    | stringNumber h => exact h.elim
    | optional => cases hopt
  | int n =>
    rw [infer] at h
    obtain rfl := Except.ok.inj h
    refine below_of_accepts_core hS fun C hopt hC => ?_
    rcases integerShape_cases n with ⟨hn, -⟩ | ⟨hn, hout⟩
    · rw [hn]
      cases hC with
      | any => exact .any _
      | int64 => exact .leaf trivial
      | float64 => exact .int64_float64
      | stringNumber => exact .int64_string
      | optional => cases hopt
    · rw [hn]
      cases hC with
      | any => exact .any _
      | int64 hin => exact absurd hin hout
      | float64 => exact .leaf trivial
      | stringNumber => exact .float64_string
      | optional => cases hopt
  | decimal d =>
    rw [infer] at h
    obtain rfl := Except.ok.inj h
    refine below_of_accepts_core hS fun C hopt hC => ?_
    cases hC with
    | any => exact .any _
    | float64 => exact .leaf trivial
    | stringNumber => exact .float64_string
    | optional => cases hopt
  | float x =>
    rw [infer] at h
    obtain rfl := Except.ok.inj h
    refine below_of_accepts_core hS fun C hopt hC => ?_
    cases hC with
    | any => exact .any _
    | float64 => exact .leaf trivial
    | stringNumber => exact .float64_string
    | optional => cases hopt
  | text s =>
    obtain ⟨x, hx, rfl⟩ := infer_text_eq_ok.1 h
    refine below_of_accepts_core hS fun C hopt hC => ?_
    have hsame : ∀ {y}, CountsAs o s y → y = x :=
      fun hc => Except.ok.inj (hc.textShape.symm.trans hx)
    cases hC with
    | any => exact .any _
    | int64Text hc =>
      obtain rfl := hsame hc
      exact .leaf trivial
    | float64Text hc =>
      obtain rfl := hsame hc
      rcases hc.isNumber with rfl | rfl
      · exact .int64_float64
      · exact .leaf trivial
    | string =>
      rcases eq_string_or_countsAs hx with rfl | hc
      · exact .leaf trivial
      · rcases hc.isNumber with rfl | rfl
        · exact .int64_string
        · exact .float64_string
    | float64 h => exact h.elim
    | stringNumber h => exact h.elim
    | optional => cases hopt
  | list items ih | tuple items ih =>
    obtain ⟨E, hE, rfl⟩ := (infer_items_eq_ok rfl).1 h
    rcases (accepts_items_iff rfl).1 hS with hany | ⟨E', harray, hitems⟩
    · exact below_of_core (hany ▸ .any _)
    · exact below_of_core (harray ▸ .array (below_of_inferItems ih hundef hE (.undefined _) hitems))
  | object entries ih =>
    obtain ⟨rfl, rfl⟩ | ⟨hkeys, rfl⟩ | ⟨hne, hkeys, fs, hfs, rfl⟩ := infer_object_eq_ok.1 h
    · exact .undefined S
    · have hne := ne_nil_of_not_nameable hkeys
      rcases (accepts_object_iff hne).1 hS with hany | ⟨_, _, hkeys', _⟩
      · exact below_of_core (hany.symm ▸ .any _)
      · exact absurd hkeys' hkeys
    · rcases (accepts_object_iff hne).1 hS with hany | ⟨gs, hrecord, -, hentries⟩
      · exact below_of_core (hany ▸ .any _)
      refine below_of_core (hrecord ▸ .record (fun f hf => ?_) fun f hf g hg => ?_)
      · obtain ⟨e, he, hef⟩ := exists_of_forall₂_right hfs (RecordOf.mem_sorted.1 hf)
        exact (hentries e he _ hef.identifier).1
      · obtain ⟨e, he, hef⟩ := exists_of_forall₂_right hfs (RecordOf.mem_sorted.1 hf)
        exact ih e he hef.shape ((hentries e he _ hef.identifier).2 g hg)
  | foreign f =>
    rw [infer] at h
    obtain rfl := Except.ok.inj h
    refine below_of_accepts_core hS fun C hopt hC => ?_
    cases hC with
    | any => exact .any _
    | float64 h => exact h.elim
    | stringNumber h => exact h.elim
    | optional => cases hopt

end Tree

/-- A record handle takes the non-empty objects whose keys are texts that become different names
of fields of the record, where each field takes the value at its key. -/
theorem RecordTable.accepts_record_iff {t : RecordTable} (ht : t.Grounded) {i : Nat} {r : Record}
    (hr : t.records[i]? = some r) {o : Options} {entries : List (Value × Value)}
    (hne : entries ≠ []) :
    t.Accepts o (.record i) (.object entries) ↔ Nameable (entries.map Prod.fst) ∧
      ∀ e ∈ entries, ∀ n, e.1.identifier? = some n →
        ∃ f, r.find? n = some f ∧ t.Accepts o f.shape e.2 := by
  have hfind : ∀ n, RecordOf.find? (r.map (FieldOf.map t.tree)) n =
      (r.find? n).map (FieldOf.map t.tree) := fun n => RecordOf.find?_map t.tree r n
  rw [Accepts, tree_record ht hr]
  constructor
  · intro h
    cases h with
    | emptyObject => exact absurd rfl hne
    | record _ hkeys hn h =>
      refine ⟨hkeys, fun e he n hname => ?_⟩
      obtain ⟨g, hg⟩ := RecordOf.exists_find? (hn e he n hname)
      have hval := h e he n hname g hg
      rw [hfind] at hg
      obtain ⟨f, hf, rfl⟩ := Option.map_eq_some_iff.1 hg
      exact ⟨f, hf, hval⟩
  · rintro ⟨hkeys, h⟩
    refine .record hne hkeys (fun e he n hname => ?_) fun e he n hname g hg => ?_
    · obtain ⟨f, hf, -⟩ := h e he n hname
      rw [RecordOf.names_map]
      exact RecordOf.name_of_find? hf ▸ RecordOf.name_mem_names (RecordOf.mem_of_find? hf)
    · obtain ⟨f, hf, hval⟩ := h e he n hname
      rw [hfind, hf] at hg
      obtain rfl := Option.some.inj hg
      exact hval

/-- Inference computes the principal shape of a value : one that takes the value, and that is below
every shape over any table that takes it. It fails only where texts count as numbers and a text in
the value is an integer literal with too many digits. -/
theorem Session.infer_principal {allowed : Options → Prop} {s : Session} {returned : List Shape}
    (hs : s.Reached allowed returned) (o : Options) (v : Value) :
    (∃ T s', (Session.infer o v).run s = (.ok T, s') ∧ s'.table.Accepts o T v ∧
      ∀ (u : RecordTable) (S : Shape), u.Accepts o S v →
        (s'.table.tree T).Below (u.tree S)) ∨
    ∃ text digits s', o.coerceNumericStrings = true ∧ Value.Part (.text text) v ∧
      numberTextShape text = .error (.integerTooLong digits) ∧
      (Session.infer o v).run s = (.error (.integerTooLong digits), s') := by
  obtain ⟨hsound, -⟩ := hs.sound (P := Tree.Formed NamedByKey true true) fun o _ =>
    Tree.inferred_formed fun _ => rfl
  have hgives := Session.infer_gives (Tree.inferred_formed fun _ => rfl) v hsound (o := o)
  cases hT : Tree.infer o v with
  | ok T =>
    rw [hT] at hgives
    obtain ⟨x, s', hrun, -, -, rfl⟩ := hgives
    exact Or.inl ⟨x, s', hrun, Tree.accepts_of_infer hT,
      fun u S hS => Tree.below_of_accepts hT hS⟩
  | error fault =>
    rw [hT] at hgives
    obtain ⟨s', hrun, -⟩ := hgives
    obtain ⟨hc, text, hpart, hfault⟩ := Tree.fault_of_infer hT
    obtain ⟨digits, -, rfl⟩ := fault_of_numberTextShape hfault
    exact Or.inr ⟨text, digits, s', hc, hpart, hfault, hrun⟩

/-- The principal shape of a number beside a text is `string`, in an array. -/
theorem Session.infer_principal_number_and_text :
    ∃ s', (Session.infer { coerceNumericStrings := false } (.list [.int 1, .text "x"])).run
        { table := { stem := "S" } } = (.ok (.array .string), s') ∧
      ∀ (u : RecordTable) (S : Shape),
        u.Accepts { coerceNumericStrings := false } S (.list [.int 1, .text "x"]) →
          (s'.table.tree (.array .string)).Below (u.tree S) := by
  obtain ⟨T, s', hrun, -, hleast⟩ | ⟨-, -, -, hc, -⟩ := infer_principal
    (.start "S" : Session.Reached (fun _ => True) _ _) { coerceNumericStrings := false }
    (.list [.int 1, .text "x"])
  · have hT : ((Session.infer { coerceNumericStrings := false } (.list [.int 1, .text "x"])).run
        { table := { stem := "S" } }).1 = .ok (.array .string) := by decide +kernel
    rw [hrun] at hT
    obtain rfl := Except.ok.inj hT
    exact ⟨s', hrun, hleast⟩
  · cases hc

end JsonShape
