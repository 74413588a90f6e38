import JsonShape.Proofs.ActionLogic
import JsonShape.Proofs.Declared
import JsonShape.Proofs.Reached

/-!
# Canonical handles

Interning compares records one level deep : fields are equal if they name the same handles. That
different handles then stand for records that differ when unfolded is a property of the table as a
whole, and it has to survive every call. `Session.Worked` collects the sessions that interning,
inference and unification lead to, in any order and under any options. Fields are interned over
handles that the table has given out; what is passed to unification may name anything.

`Session.soundLogic` is the step : an action leaves the table grounded and free of repetitions,
whether it returns or fails. Unification does so whatever its arguments (`unify_keepsSound`), since
all that it interns comes from records of the table. So in every such session two handles are equal
exactly if the records that they stand for, unfolded, are equal
(`Session.handle_eq_iff_of_worked`).
-/

namespace JsonShape

/-- A property that every tree has. -/
def Tree.Unrestricted (_ : Tree) : Prop :=
  True

theorem Tree.inferred_unrestricted (o : Options) : Tree.Inferred o Tree.Unrestricted where
  array := fun _ => trivial
  record := fun _ _ _ => trivial
  optional := fun _ => trivial
  alone := fun _ => trivial
  unify := fun _ _ => trivial
  infer := fun _ => trivial

namespace Session

/-- Sessions that interning, inference and unification lead to. A call that fails may leave records
behind. -/
inductive Worked : Session → Prop
  | start (stem : String) : Worked { table := { stem := stem } }
  | intern {s s' : Session} {fields : List Field} {r : Except Fault Shape} (h : Worked s)
    (hf : ∀ f ∈ fields, ∀ k ∈ f.shape.handles, s.table.hasHandle k = true)
    (hrun : (Session.intern fields).run s = (r, s')) : Worked s'
  | infer {s s' : Session} {o : Options} {v : Value} {r : Except Fault Shape} (h : Worked s)
    (hrun : (Session.infer o v).run s = (r, s')) : Worked s'
  | unify {s s' : Session} {o : Options} {a b : Shape} {r : Except Fault Shape} (h : Worked s)
    (hrun : (Session.unify o a b).run s = (r, s')) : Worked s'

variable {s : Session} {o : Options}

/-! ## Sound sessions -/

/-- The table is grounded and free of repetitions. -/
def Sound (s : Session) : Prop :=
  s.table.Sound Tree.Unrestricted

theorem Keeps.of_gives {e : Except Fault Tree} {x : Action Shape}
    (h : Gives Tree.Unrestricted (RecordTable.Reads Tree.Unrestricted) x s e) :
    Keeps Sound (fun t y => y.Within t.size) x s := by
  rcases hx : x.run s with ⟨r, s'⟩
  obtain ⟨hadv, hr⟩ := h.of_run hx
  refine ⟨by rw [hx]; exact hadv.sound, by rw [hx]; exact hadv.grows, ?_⟩
  rw [hx]
  rintro y rfl
  exact (hr y (by simp [Except.toOption])).within

theorem record_keepsSound (h : Int) (hs : s.Sound) : Keeps Sound FieldsWithin (record h) s := by
  refine ⟨by rw [run_record]; exact hs, by rw [run_record]; exact RecordTable.Grows.refl _, ?_⟩
  rw [run_record]
  intro r hr f hf
  cases hget : s.table.get? h with
  | none => simp [hget] at hr
  | some q =>
    obtain rfl : q = r := by simpa [hget] using hr
    obtain ⟨i, hi⟩ := List.mem_iff_getElem?.1 (RecordTable.get?_mem hget)
    exact hs.grounded.within hi hf

theorem intern_keepsSound (hs : s.Sound) {fields : List Field} (hf : FieldsWithin s.table fields) :
    Keeps Sound (fun t y => y.Within t.size) (intern fields) s :=
  Keeps.of_gives (intern_gives hs ⟨fun f h => ⟨hf f h, trivial⟩, rfl⟩ trivial)

/-- Sound sessions stay sound. All that is interned within unification comes from records of the
table, so nothing is asked of its arguments. -/
def soundLogic : ActionLogic :=
  .keeping Sound True (fun h hs => (record_keepsSound h hs).imp fun _ _ _ hr _ => hr)
    (fun hs hf => intern_keepsSound hs (hf trivial))
    fun hs _ => ⟨hs, RecordTable.Grows.refl _, fun _ _ => trivial⟩

/-- Unification keeps the table, whatever handles its arguments name. -/
theorem unify_keepsSound (o : Options) (a b : Shape) (hs : s.Sound) :
    Keeps Sound (NamesKnown a b) (unify o a b) s :=
  unify_keeps fun depth =>
    soundLogic.unifyWithin_holds o (Nat.le_refl depth) a b hs False.elim False.elim

theorem infer_keepsSound (o : Options) (v : Value) (hs : s.Sound) :
    Keeps Sound (fun t y => y.Within t.size) (infer o v) s :=
  Keeps.of_gives (infer_gives (Tree.inferred_unrestricted o) v hs)

/-! ## Handles and unfolded records -/

theorem Worked.sound (h : s.Worked) : s.table.Sound Tree.Unrestricted := by
  induction h with
  | start stem => exact sound_start _ stem
  | intern _ hf hrun ih =>
    have hwithin := fun f hmem k hk => RecordTable.hasHandle_iff.1 (hf f hmem k hk)
    exact ((intern_keepsSound ih hwithin).of_run hrun).1
  | infer _ hrun ih => exact ((infer_keepsSound _ _ ih).of_run hrun).1
  | unify _ hrun ih => exact ((unify_keepsSound _ _ _ ih).of_run hrun).1

/-- A new record whose fields are in order is stored as it is. -/
theorem Worked.push (h : s.Worked) {r : Record} (hr : r.Pairwise fun f g => f.name ≤ g.name)
    (hnew : s.table.lookup r = none)
    (hf : ∀ f ∈ r, ∀ k ∈ f.shape.handles, s.table.hasHandle k = true) : (s.push r).Worked := by
  have hsorted : RecordOf.sorted r = r := List.mergeSort_of_pairwise (by simpa using hr)
  refine @Worked.intern _ _ r (.ok (.record s.table.size)) h hf ?_
  rw [run_intern_new (by rwa [hsorted]), hsorted]

/-- Handles are canonical : each stands for its record with the fields unfolded, and two of them are
equal exactly if the records that they stand for are equal when unfolded. -/
theorem handle_eq_iff_of_worked (h : s.Worked) :
    (∀ i, s.table.hasHandle i = true → ∃ r, s.table.get? i = some r ∧
      s.table.tree (.record i) = .record (r.map (FieldOf.map s.table.tree))) ∧
    ∀ i j, s.table.hasHandle i = true → s.table.hasHandle j = true →
      (i = j ↔ s.table.tree (.record i) = s.table.tree (.record j)) := by
  have hs := h.sound
  constructor
  · intro i hi
    obtain ⟨n, r, rfl, hr⟩ :=
      RecordTable.exists_record (Shape.within_record.2 (RecordTable.hasHandle_iff.1 hi))
    exact ⟨r, by simp [RecordTable.get?, hr], RecordTable.tree_record hs.grounded hr⟩
  · intro i j hi hj
    rw [hs.tree_inj (Shape.within_record.2 (RecordTable.hasHandle_iff.1 hi))
      (Shape.within_record.2 (RecordTable.hasHandle_iff.1 hj)), Shape.record.injEq]

/-- A record inferred and one interned over its handle have different handles, and so different
unfolded records. -/
theorem handle_eq_iff_of_worked_nested :
    ∃ s : Session, s.Worked ∧ s.table.hasHandle 0 = true ∧ s.table.hasHandle 1 = true ∧
      s.table.tree (.record 0) ≠ s.table.tree (.record 1) := by
  have hinfer := (Worked.start "S").infer (o := {}) (v := .object [(.text "b", .int 1)]) rfl
  have hintern := @Worked.intern _ _ [⟨"A", "a", .record 0⟩] _ hinfer (by decide +kernel) rfl
  refine ⟨_, hintern, by decide +kernel, by decide +kernel, fun heq => ?_⟩
  exact absurd (((handle_eq_iff_of_worked hintern).2 0 1 (by decide +kernel)
    (by decide +kernel)).2 heq) (by decide)

end Session

end JsonShape
