import JsonShape.Proofs.Formed

/-!
# Sessions that calls lead to

A session starts with an empty table, and inference and unification are called on it in any order,
each call under options of its own. `Session.Reached` collects the sessions this leads to. A caller
passes to unification what earlier calls returned or what stands in the fields of stored records.

`Session.Reached.sound` is the invariant : whatever all these calls keep of trees holds of every
record in the table. For well-formed trees it says that every stored record is well formed, and
that optional marks appear only where some call was allowed to set them.
-/

namespace JsonShape

namespace Session

/-- The caller holds the shape : a call returned it, or it stands in a stored record. -/
def Held (s : Session) (returned : List Shape) (x : Shape) : Prop :=
  x ∈ returned ∨ ∃ r ∈ s.table.records, ∃ f ∈ r, f.shape = x

/-- A session that calls under allowed options lead to, with the shapes that they returned. A call
that fails returns nothing, but may leave records behind. -/
inductive Reached (allowed : Options → Prop) : Session → List Shape → Prop
  | start (stem : String) : Reached allowed { table := { stem := stem } } []
  | infer {s s' : Session} {returned : List Shape} {o : Options} {v : Value}
    {r : Except Fault Shape} (h : Reached allowed s returned) (ho : allowed o)
    (hrun : (Session.infer o v).run s = (r, s')) :
    Reached allowed s' (r.toOption.toList ++ returned)
  | unify {s s' : Session} {returned : List Shape} {o : Options} {a b : Shape}
    {r : Except Fault Shape} (h : Reached allowed s returned) (ho : allowed o)
    (ha : s.Held returned a) (hb : s.Held returned b)
    (hrun : (Session.unify o a b).run s = (r, s')) :
    Reached allowed s' (r.toOption.toList ++ returned)

variable {P : Tree → Prop} {allowed : Options → Prop} {s s' : Session} {returned : List Shape}

theorem sound_start (P : Tree → Prop) (stem : String) :
    ({ stem := stem } : RecordTable).Sound P where
  grounded := by
    intro i r hr
    simp at hr
  indexed := RecordTable.indexed_start stem
  holds := by
    intro T hT
    simp [RecordTable.trees, unfoldRecords] at hT

/-- A call that returns has returned what is expected. -/
theorem Gives.of_run_ok {α β : Type} {R : RecordTable → α → β → Prop} {x : Action α}
    {e : Except Fault β} {a : α} (h : Gives P R x s e) (hrun : x.run s = (.ok a, s')) :
    ∃ b, e = .ok b ∧ s.Advances P s' ∧ R s'.table a b := by
  cases e with
  | ok b =>
    obtain ⟨a', s'', hrun', hadv, hR⟩ := h
    obtain ⟨ha, rfl⟩ := Prod.mk.inj (hrun'.symm.trans hrun)
    obtain rfl := Except.ok.inj ha
    exact ⟨b, rfl, hadv, hR⟩
  | error fault =>
    obtain ⟨s'', hrun', -⟩ := h
    cases hrun'.symm.trans hrun

theorem run_of_toOption {α : Type} {x : Action α} {a : α} (h : (x.run s).1.toOption = some a) :
    x.run s = (.ok a, (x.run s).2) := by
  refine Prod.ext ?_ rfl
  cases hresult : (x.run s).1 with
  | error e => simp [hresult, Except.toOption] at h
  | ok b =>
    rw [hresult] at h
    exact congrArg Except.ok (Option.some.inj h)

/-- What a caller sees of a call that gives what is expected. -/
theorem Gives.of_run {x : Action Shape} {e : Except Fault Tree} {r : Except Fault Shape}
    (h : Gives P (RecordTable.Reads P) x s e) (hrun : x.run s = (r, s')) :
    s.Advances P s' ∧ ∀ y ∈ r.toOption.toList, s'.table.Knows P y := by
  cases e with
  | ok T =>
    obtain ⟨y, s'', hrun', hadv, hread⟩ := h
    obtain ⟨rfl, rfl⟩ := Prod.mk.inj (hrun'.symm.trans hrun)
    exact ⟨hadv, by simpa [Except.toOption] using hread.1⟩
  | error fault =>
    obtain ⟨s'', hrun', hadv⟩ := h
    obtain ⟨rfl, rfl⟩ := Prod.mk.inj (hrun'.symm.trans hrun)
    exact ⟨hadv, by simp [Except.toOption]⟩

theorem Held.knows {o : Options} (hP : Tree.Kept o P) (hs : s.table.Sound P)
    (hk : ∀ x ∈ returned, s.table.Knows P x) {x : Shape} (h : s.Held returned x) :
    s.table.Knows P x := by
  rcases h with h | ⟨r, hr, f, hf, rfl⟩
  · exact hk x h
  · obtain ⟨i, hi⟩ := List.mem_iff_getElem?.1 hr
    have hrec := (hs.knows_record hi).holds
    rw [RecordTable.tree_record hs.grounded hi] at hrec
    exact ⟨hs.grounded.within hi hf, hP.record hrec _ (List.mem_map_of_mem hf)⟩

/-- What every call keeps holds of every record stored and every shape returned. -/
theorem Reached.sound (h : s.Reached allowed returned)
    (hP : ∀ o, allowed o → Tree.Inferred o P) :
    s.table.Sound P ∧ ∀ x ∈ returned, s.table.Knows P x := by
  have step : ∀ {s s' : Session} {returned : List Shape} {r : Except Fault Shape},
      (∀ x ∈ returned, s.table.Knows P x) →
      (s.Advances P s' ∧ ∀ y ∈ r.toOption.toList, s'.table.Knows P y) →
      s'.table.Sound P ∧ ∀ x ∈ r.toOption.toList ++ returned, s'.table.Knows P x := by
    intro s s' returned r hk ⟨hadv, hnew⟩
    refine ⟨hadv.sound, fun x hx => ?_⟩
    rcases List.mem_append.1 hx with hx | hx
    · exact hnew x hx
    · exact (hk x hx).grow hadv.grows
  induction h with
  | start stem => exact ⟨sound_start P stem, by simp⟩
  | infer _ ho hrun ih =>
    obtain ⟨hs, hk⟩ := ih
    exact step hk ((infer_gives (hP _ ho) _ hs).of_run hrun)
  | unify _ ho ha hb hrun ih =>
    obtain ⟨hs, hk⟩ := ih
    have hkept := (hP _ ho).toKept
    exact step hk ((unify_gives hkept hs (ha.knows hkept hs hk) (hb.knows hkept hs hk)).of_run hrun)

end Session

/-! ## Stored records -/

/-- No optional mark occurs in the shape. -/
def Shape.Unmarked : Shape → Prop
  | .array element => element.Unmarked
  | .optional _ => False
  | _ => True

/-- An optional mark stands outermost or nowhere, and on no `any`, `undefined` or optional shape. -/
def Shape.MarkedOutermost : Shape → Prop
  | .optional inner => inner ≠ .any ∧ inner ≠ .undefined ∧ inner.Unmarked
  | x => x.Unmarked

/-- A record as it stands in the table at a handle. -/
structure Record.WellFormed (handle : Nat) (r : Record) : Prop where
  ne_nil : r ≠ []
  names_ascending : r.names.Pairwise (· < ·)
  identifierOf_key : ∀ f ∈ r, identifierOf f.key = f.name
  keys_nodup : (r.map FieldOf.key).Nodup
  handles_lt : ∀ f ∈ r, ∀ h ∈ f.shape.handles, 0 ≤ h ∧ h < handle
  marked : ∀ f ∈ r, f.shape.MarkedOutermost

section

variable {t : RecordTable} {marks : Bool}

theorem Shape.unmarked_of_formed {x : Shape} (h : (t.tree x).Formed NamedByKey marks false) :
    x.Unmarked := by
  induction x with
  | array e ih => exact ih h.of_array
  | optional y => exact absurd h.of_optional.1 (by simp)
  | _ => trivial

theorem Shape.unmarked_of_formed_false {x : Shape} (h : (t.tree x).Formed NamedByKey false true) :
    x.Unmarked := by
  cases x with
  | array e => exact unmarked_of_formed (x := e) h.of_array
  | optional y => exact absurd h.of_optional.2.1 (by simp)
  | _ => trivial

theorem Shape.markedOutermost_of_formed {x : Shape} (h : (t.tree x).Formed NamedByKey marks true) :
    x.MarkedOutermost := by
  cases x with
  | array e => exact unmarked_of_formed (x := e) h.of_array
  | optional y =>
    obtain ⟨-, -, hany, hundef, hy⟩ := h.of_optional
    exact ⟨fun he => hany (he ▸ rfl), fun he => hundef (he ▸ rfl), unmarked_of_formed hy⟩
  | _ => trivial

/-- Keys that become different identifiers are different. -/
theorem RecordOf.nodup_keys {α : Type} {r : RecordOf α} (hr : r.names.Nodup)
    (hkey : ∀ f ∈ r, identifierOf f.key = f.name) : (r.map FieldOf.key).Nodup := by
  have hnames : r.names = (r.map FieldOf.key).map identifierOf := by
    rw [names, List.map_map]
    exact List.map_congr_left fun f hf => (hkey f hf).symm
  rw [hnames] at hr
  exact hr.of_map

theorem RecordTable.Sound.formed_record (ht : t.Sound (Tree.Formed NamedByKey marks true)) {i : Nat}
    {r : Record} (hr : t.records[i]? = some r) :
    Tree.Formed NamedByKey marks true (.record (r.map (FieldOf.map t.tree))) :=
  tree_record ht.grounded hr ▸ (ht.knows_record hr).holds

theorem RecordTable.Sound.wellFormed (ht : t.Sound (Tree.Formed NamedByKey marks true)) {i : Nat}
    {r : Record} (hr : t.records[i]? = some r) : Record.WellFormed i r := by
  have h := ht.formed_record hr
  have hfields : ∀ f ∈ r,
      identifierOf f.key = f.name ∧ (t.tree f.shape).Formed NamedByKey marks true :=
    fun f hf => h.fields (f.map t.tree) (List.mem_map_of_mem hf)
  have hasc : r.Ascending := by
    have := h.ascending
    rwa [RecordOf.Ascending, RecordOf.names_map] at this
  exact
    { ne_nil := fun hnil => h.ne_nil (by rw [hnil]; rfl)
      names_ascending := hasc
      identifierOf_key := fun f hf => (hfields f hf).1
      keys_nodup := RecordOf.nodup_keys hasc.nodup fun f hf => (hfields f hf).1
      handles_lt := fun f hf => ht.grounded i r hr f hf
      marked := fun f hf => Shape.markedOutermost_of_formed (hfields f hf).2 }

end

/-- Every record that calls of inference and unification leave in the table is well formed. Where
no call sets optional marks, there are none. -/
theorem Session.wellFormed_of_reached {allowed : Options → Prop} {s : Session}
    {returned : List Shape} (h : s.Reached allowed returned) :
    (∀ (i : Nat) (r : Record), s.table.records[i]? = some r → Record.WellFormed i r) ∧
      ((∀ o, allowed o → o.optionalFields = false) →
        (∀ r ∈ s.table.records, ∀ f ∈ r, f.shape.Unmarked) ∧ ∀ x ∈ returned, x.Unmarked) := by
  constructor
  · obtain ⟨hs, -⟩ := h.sound (P := Tree.Formed NamedByKey true true) fun o _ =>
      Tree.inferred_formed fun _ => rfl
    exact fun i r hr => hs.wellFormed hr
  · intro hoff
    obtain ⟨hs, hk⟩ := h.sound (P := Tree.Formed NamedByKey false true) fun o ho =>
      Tree.inferred_formed fun hon => absurd hon (by simp [hoff o ho])
    refine ⟨fun r hr f hf => ?_, fun x hx => Shape.unmarked_of_formed_false (hk x hx).holds⟩
    obtain ⟨i, hi⟩ := List.mem_iff_getElem?.1 hr
    have hform := (hs.formed_record hi).fields _ (List.mem_map_of_mem hf)
    exact Shape.unmarked_of_formed_false hform.2

/-- A nested object leaves two well-formed records, without optional marks if the options set
none. -/
theorem Session.wellFormed_of_reached_nested_object :
    (∃ s returned, Session.Reached (fun _ => True) s returned ∧ s.table.size = 2 ∧
      ∀ (i : Nat) (r : Record), s.table.records[i]? = some r → Record.WellFormed i r) ∧
    ∃ s returned, Session.Reached (fun o => o.optionalFields = false) s returned ∧
      s.table.size = 2 ∧ ∀ r ∈ s.table.records, ∀ f ∈ r, f.shape.Unmarked := by
  have hon := (Reached.start "S" : Session.Reached (fun _ => True) _ _).infer
    (o := { optionalFields := true }) (v := .object [(.text "a", .object [(.text "b", .int 1)])])
    trivial rfl
  have hoff := (Reached.start "S" : Session.Reached (fun o => o.optionalFields = false) _ _).infer
    (o := {}) (v := .object [(.text "a", .object [(.text "b", .int 1)])]) rfl
    rfl
  exact ⟨⟨_, _, hon, by decide +kernel, (wellFormed_of_reached hon).1⟩,
    ⟨_, _, hoff, by decide +kernel, ((wellFormed_of_reached hoff).2 fun _ ho => ho).1⟩⟩

end JsonShape
