import JsonShape.Proofs.Canonical

/-!
# Unification returns

Unification follows handles into a table that it extends on the way, and what it has just stored may
be unified once more within the same merge. Handles therefore do not get smaller; what does not grow
is the depth to which arrays and records are nested (`Tree.depth_unify_le`).

The depth that `Session.unify` allows is enough on every table that calls lead to, whatever records
were interned, with repeated names too. `Session.depthLogic` says that nothing else depends on it :
an action that is allowed more depth returns the same, and leaves the same session behind
(`run_unifyWithin_of_le`). So `Session.unify_returns` is about unification as such, and not about
the bound it is given.
-/

namespace JsonShape

namespace Session

/-! ## More depth -/

variable {o : Options} {s : Session} {a b : Shape}

/-- Whatever the first action returns on the session, the second returns too, and it leaves the same
session. -/
def Extends {α : Type} (x y : Action α) (s : Session) : Prop :=
  ∀ (a : α) (s' : Session), x.run s = (.ok a, s') → y.run s = (.ok a, s')

/-- Sound sessions stay sound, and more depth changes no result. -/
def depthLogic : ActionLogic where
  Good := Sound
  strictArguments := False
  strictFields := True
  strictFields_of_arguments := False.elim
  Holds := fun Q x y s => Keeps Sound Q x s ∧ Extends x y s
  pure := fun hs h => ⟨Keeps.pure hs h, fun _ _ hrun => hrun⟩
  fail := fun hs => ⟨Keeps.fail hs _, by rintro _ _ ⟨⟩⟩
  bind := by
    intro α β Q R s x y f g h hf
    refine ⟨h.1.bind fun a s' hs' hgrows ha => (hf a s' hs' hgrows ha).1, fun b s'' hrun => ?_⟩
    rcases hx : x.run s with ⟨e | a, s'⟩
    · cases (run_bind_error hx).symm.trans hrun
    · obtain ⟨hs', hgrows, hresult⟩ := h.1.of_run hx
      rw [run_bind_ok hx] at hrun
      exact (run_bind_ok (h.2 a s' hx)).trans ((hf a s' hs' hgrows (hresult a rfl)).2 b s'' hrun)
  record := fun hs hh => ⟨soundLogic.record hs hh, fun _ _ hrun => hrun⟩
  intern := fun hs hf => ⟨soundLogic.intern hs hf, fun _ _ hrun => hrun⟩
  report := fun hs he => ⟨soundLogic.report hs he, fun _ _ hrun => hrun⟩

/-- What unification returns at some depth, it returns at any larger one. -/
theorem run_unifyWithin_of_le (hs : s.Sound) {n m : Nat} (hnm : n ≤ m) {c : Shape} {s' : Session}
    (hrun : (unifyWithin o n a b).run s = (.ok c, s')) :
    (unifyWithin o m a b).run s = (.ok c, s') :=
  (depthLogic.unifyWithin_holds o hnm a b hs False.elim False.elim).2 c s' hrun

/-! ## Unification on any table -/

/-- Unification of shapes over the handles of a table returns, on every table that calls of
interning, inference and unification lead to. It ends within the depth allowed, whether that is as
large as `unifyDepth` or larger, and meets no handle outside the table. It only adds records at the
end, the result and the new records mention handles of the table, and arrays and records are nested
in the result no deeper than in the deeper one of the two shapes. -/
theorem unify_returns (h : s.Worked) (o : Options)
    (ha : ∀ k ∈ a.handles, s.table.hasHandle k = true)
    (hb : ∀ k ∈ b.handles, s.table.hasHandle k = true) :
    ∃ c s' added, (unify o a b).run s = (.ok c, s') ∧
      (∀ depth, unifyDepth s.table a b ≤ depth →
        (unifyWithin o depth a b).run s = (.ok c, s')) ∧
      s'.table.stem = s.table.stem ∧ s'.table.records = s.table.records ++ added ∧
      (∀ k ∈ c.handles, s'.table.hasHandle k = true) ∧
      (∀ r ∈ added, ∀ k ∈ RecordTable.mentioned r, s'.table.hasHandle k = true) ∧
      (s'.table.tree c).depth ≤ max (s.table.tree a).depth (s.table.tree b).depth := by
  have hka : s.table.Knows Tree.Unrestricted a :=
    ⟨fun k hk => RecordTable.hasHandle_iff.1 (ha k hk), trivial⟩
  have hkb : s.table.Knows Tree.Unrestricted b :=
    ⟨fun k hk => RecordTable.hasHandle_iff.1 (hb k hk), trivial⟩
  obtain ⟨c, s', hrun, hadv, hknows, htree⟩ :=
    unify_gives (Tree.inferred_unrestricted o).toKept h.sound hka hkb
  obtain ⟨added, hadded⟩ := hadv.grows.records
  refine ⟨c, s', added, hrun, fun depth hdepth => ?_, hadv.grows.stem, hadded.symm,
    fun k hk => ?_, fun r hr k hk => ?_, ?_⟩
  · exact run_unifyWithin_of_le h.sound hdepth ((unify_run o a b s).symm.trans hrun)
  · exact RecordTable.hasHandle_iff.2 (hknows.within k hk)
  · obtain ⟨i, hi⟩ := List.mem_iff_getElem?.1 (hadded ▸ List.mem_append_right _ hr)
    obtain ⟨f, hf, hk⟩ := List.mem_flatMap.1 hk
    exact RecordTable.hasHandle_iff.2 (hadv.sound.grounded.within hi hf k hk)
  · rw [htree]
    exact Tree.depth_unify_le o _ _

/-- A table with a record that repeats a name : what its first field is unified to is unified again
with its second one. -/
def repeatedName : Session :=
  [[⟨"X", "x", .int64⟩], [⟨"Y", "y", .bool⟩], [⟨"A", "a", .record 0⟩],
    [⟨"A", "b", .record 0⟩, ⟨"A", "c", .record 1⟩]].foldl push { table := { stem := "S" } }

theorem worked_repeatedName : repeatedName.Worked := by
  have hfirst := (Worked.start "S").push (r := [⟨"X", "x", .int64⟩]) (by decide) rfl (by decide)
  have hsecond := hfirst.push (r := [⟨"Y", "y", .bool⟩]) (by decide) rfl (by decide)
  have hthird := hsecond.push (r := [⟨"A", "a", .record 0⟩]) (by decide) rfl (by decide)
  exact hthird.push (r := [⟨"A", "b", .record 0⟩, ⟨"A", "c", .record 1⟩]) (by decide) rfl
    (by decide)

theorem unify_returns_repeatedName :
    repeatedName.Worked ∧ repeatedName.table.hasHandle 2 = true ∧
      repeatedName.table.hasHandle 3 = true ∧
      ∃ c s', (unify { optionalFields := true } (.record 2) (.record 3)).run repeatedName =
        (.ok c, s') ∧ (s'.table.tree c).depth ≤ 2 := by
  have hleft : ∀ k ∈ (Shape.record 2).handles, repeatedName.table.hasHandle k = true := by decide
  have hright : ∀ k ∈ (Shape.record 3).handles, repeatedName.table.hasHandle k = true := by decide
  obtain ⟨c, s', -, hrun, -, -, -, -, -, hdepth⟩ :=
    unify_returns worked_repeatedName { optionalFields := true } hleft hright
  have hnesting : max (repeatedName.table.tree (.record 2)).depth
      (repeatedName.table.tree (.record 3)).depth = 2 := by decide
  exact ⟨worked_repeatedName, by decide, by decide, c, s', hrun, hnesting ▸ hdepth⟩

end Session

end JsonShape
