import JsonShape.Proofs.Tree
import JsonShape.Shape.Declaration
import Mathlib.Data.List.Perm.Subperm

/-!
# Declared records

The declarations of a root are found by a queue of handles. `Frontier` is what holds of the handles
taken from the queue and those still in it : none stands there twice, all lie in the table, and what
the taken ones mention is known. A step keeps it (`Frontier.step`), so a run ends with a list that
is closed under mention (`reach_ok`), and before the steps allowed are used up, since there are no
more than twice as many handles as records.

`Reaches` says without a queue which records a root leads to. Those are the declared ones
(`mem_handles_iff_reaches`).
-/

namespace JsonShape

namespace RecordTable

variable {t : RecordTable}

/-! ## Fresh handles -/

theorem mem_fresh {known handles : List Int} {h : Int} :
    h ∈ fresh known handles ↔ h ∈ handles ∧ h ∉ known := by
  simp [fresh, List.mem_eraseDups]

theorem nodup_fresh (known handles : List Int) : (fresh known handles).Nodup :=
  nodup_eraseDups _

/-- Renaming different handles differently keeps what is fresh. -/
theorem fresh_map {σ : Int → Int} {known handles : List Int}
    (hσ : ∀ h ∈ known ++ handles, ∀ k ∈ known ++ handles, σ h = σ k → h = k) :
    fresh (known.map σ) (handles.map σ) = (fresh known handles).map σ := by
  have hfilter : (handles.map σ).filter (fun h => !(known.map σ).contains h) =
      (handles.filter fun h => !known.contains h).map σ := by
    rw [List.filter_map]
    congr 1
    refine List.filter_congr fun h hh => ?_
    have hiff : σ h ∈ known.map σ ↔ h ∈ known := by
      refine ⟨fun hmem => ?_, List.mem_map_of_mem⟩
      obtain ⟨k, hk, he⟩ := List.mem_map.1 hmem
      exact hσ k (List.mem_append_left _ hk) h (List.mem_append_right _ hh) he ▸ hk
    simp only [Function.comp_apply, List.contains_eq_mem, hiff]
  unfold fresh
  rw [hfilter]
  refine eraseDups_map fun h hh k hk => hσ h ?_ k ?_
  · exact List.mem_append_right _ (List.mem_filter.1 hh).1
  · exact List.mem_append_right _ (List.mem_filter.1 hk).1

/-! ## Handles in range -/

/-- A record stands at the handle. -/
def InRange (t : RecordTable) (h : Int) : Prop :=
  (t.get? h).isSome

/-- All handles in the table lie in range. -/
def Closed (t : RecordTable) : Prop :=
  ∀ r ∈ t.records, ∀ h ∈ mentioned r, t.InRange h

theorem InRange.bounds {h : Int} (hh : t.InRange h) : -t.size ≤ h ∧ h < t.size := by
  unfold InRange get? at hh
  split_ifs at hh with h0 h1
  · have := (List.getElem?_eq_some_iff.1 (Option.isSome_iff_exists.1 hh).choose_spec).1
    simp only [size]
    omega
  · omega
  · simp at hh

/-- There are no more than twice as many handles as records. -/
theorem length_le_of_inRange {hs : List Int} (hnodup : hs.Nodup) (hr : ∀ h ∈ hs, t.InRange h) :
    hs.length ≤ 2 * t.size := by
  have hsub : hs ⊆ (List.range (2 * t.size)).map fun i : Nat => (i : Int) - t.size := by
    intro h hh
    have hb := (hr h hh).bounds
    exact List.mem_map.2 ⟨(h + t.size).toNat, List.mem_range.2 (by omega), by omega⟩
  simpa using (List.subperm_of_subset hnodup hsub).length_le

theorem get?_mem {h : Int} {r : Record} (hr : t.get? h = some r) : r ∈ t.records := by
  unfold get? at hr
  split_ifs at hr
  · exact List.mem_of_getElem? hr
  · exact List.mem_of_getElem? hr

/-! ## Reaching -/

/-- A finished run stays finished if more steps are allowed. -/
theorem reach_mono {fuel more : Nat} (hle : fuel ≤ more) {queue known found : List Int}
    (h : t.reach fuel queue known = .ok found) : t.reach more queue known = .ok found := by
  induction fuel generalizing more queue known with
  | zero =>
    cases queue with
    | nil =>
      rw [reach] at h ⊢
      exact h
    | cons => simp [reach] at h
  | succ fuel ih =>
    cases queue with
    | nil =>
      rw [reach] at h ⊢
      exact h
    | cons handle queue =>
      obtain ⟨more, rfl⟩ : ∃ m, more = m + 1 := ⟨more - 1, by omega⟩
      rw [reach] at h ⊢
      cases hr : t.get? handle with
      | none => simp [hr] at h
      | some r =>
        rw [hr] at h
        exact ih (by omega) h

/-- Handles taken from the queue and handles in it, in the middle of a run. -/
structure Frontier (t : RecordTable) (done queue : List Int) : Prop where
  nodup : (done ++ queue).Nodup
  inRange : ∀ h ∈ done ++ queue, t.InRange h
  expanded : ∀ h ∈ done, ∀ r, t.get? h = some r → ∀ k ∈ mentioned r, k ∈ done ++ queue

theorem Frontier.step (ht : t.Closed) {done queue : List Int} {h : Int} {r : Record}
    (hf : t.Frontier done (h :: queue)) (hr : t.get? h = some r) :
    t.Frontier (done ++ [h]) (queue ++ fresh (done ++ h :: queue) (mentioned r)) := by
  have hassoc : (done ++ [h]) ++ (queue ++ fresh (done ++ h :: queue) (mentioned r)) =
      (done ++ h :: queue) ++ fresh (done ++ h :: queue) (mentioned r) := by simp
  constructor
  · rw [hassoc]
    refine List.nodup_append.2 ⟨hf.nodup, nodup_fresh _ _, fun k hk l hl he => ?_⟩
    exact (mem_fresh.1 hl).2 (he ▸ hk)
  · rw [hassoc]
    intro k hk
    rcases List.mem_append.1 hk with hk | hk
    · exact hf.inRange k hk
    · exact ht r (get?_mem hr) k (mem_fresh.1 hk).1
  · rw [hassoc]
    intro k hk q hq l hl
    rcases List.mem_append.1 hk with hk | hk
    · exact List.mem_append_left _ (hf.expanded k hk q hq l hl)
    · obtain rfl := List.mem_singleton.1 hk
      obtain rfl := Option.some.inj (hr.symm.trans hq)
      by_cases hknown : l ∈ done ++ k :: queue
      · exact List.mem_append_left _ hknown
      · exact List.mem_append_right _ (mem_fresh.2 ⟨hl, hknown⟩)

/-- A run finds a list that holds what was known and all that its records mention. -/
theorem reach_ok (ht : t.Closed) {fuel : Nat} {done queue : List Int} (hf : t.Frontier done queue)
    (hfuel : 2 * t.size ≤ fuel + done.length) :
    ∃ found, t.reach fuel queue (done ++ queue) = .ok found ∧ done ++ queue <+: found ∧
      t.Frontier found [] := by
  induction fuel generalizing done queue with
  | zero =>
    cases queue with
    | nil => exact ⟨done ++ [], by rw [reach], List.prefix_refl _, by simpa using hf⟩
    | cons h queue =>
      have hlen := length_le_of_inRange hf.nodup hf.inRange
      simp at hlen
      omega
  | succ fuel ih =>
    cases queue with
    | nil => exact ⟨done ++ [], by rw [reach], List.prefix_refl _, by simpa using hf⟩
    | cons h queue =>
      obtain ⟨r, hr⟩ := Option.isSome_iff_exists.1 (hf.inRange h (by simp))
      have hstep := hf.step ht hr
      obtain ⟨found, hfound, hpre, hclosed⟩ := ih hstep (by simp; omega)
      have hassoc : (done ++ [h]) ++ (queue ++ fresh (done ++ h :: queue) (mentioned r)) =
          (done ++ h :: queue) ++ fresh (done ++ h :: queue) (mentioned r) := by simp
      rw [hassoc] at hfound hpre
      refine ⟨found, ?_, (List.prefix_append _ _).trans hpre, hclosed⟩
      rw [reach, hr]
      exact hfound

theorem reachable_ok (ht : t.Closed) {root : Shape} (hroot : ∀ h ∈ root.handles, t.InRange h) :
    ∃ found, t.reachable root = .ok found ∧ (∀ h ∈ root.handles, h ∈ found) ∧
      t.Frontier found [] := by
  have hmem : ∀ h, h ∈ fresh [] root.handles ↔ h ∈ root.handles := by simp [mem_fresh]
  have hstart : t.Frontier [] (fresh [] root.handles) :=
    ⟨nodup_fresh _ _, fun h hh => hroot h ((hmem h).1 hh), by simp⟩
  obtain ⟨found, hfound, hpre, hclosed⟩ :=
    reach_ok ht hstart (show _ ≤ (2 * t.size + 1) + 0 by omega)
  exact ⟨found, hfound, fun h hh => hpre.subset ((hmem h).2 hh), hclosed⟩

/-! ## Declaring -/

/-- The declarations carry the given handles with the records found there. -/
theorem declare_ok {found : List Int} (hr : ∀ h ∈ found, t.InRange h) (index : Nat) :
    ∃ ds, t.declare index found = .ok ds ∧ ds.map Declaration.handle = found ∧
      ∀ d ∈ ds, t.get? d.handle = some d.record := by
  induction found generalizing index with
  | nil => exact ⟨[], rfl, rfl, by simp⟩
  | cons h found ih =>
    obtain ⟨r, hget⟩ := Option.isSome_iff_exists.1 (hr h (List.mem_cons_self ..))
    obtain ⟨ds, hds, hhandles, hrecords⟩ := ih (fun k hk => hr k (List.mem_cons_of_mem _ hk))
      (index + 1)
    refine ⟨_, by rw [declare, hget, hds], by simp [hhandles], fun d hd => ?_⟩
    rcases List.mem_cons.1 hd with rfl | hd
    · exact hget
    · exact hrecords d hd

/-- Declarations of a root : each handle once, the root's among them, and all that they mention. -/
structure Declares (t : RecordTable) (root : Shape) (ds : List Declaration) : Prop where
  nodup : (ds.map Declaration.handle).Nodup
  root : ∀ h ∈ root.handles, h ∈ ds.map Declaration.handle
  mentioned : ∀ d ∈ ds, ∀ h ∈ mentioned d.record, h ∈ ds.map Declaration.handle
  record : ∀ d ∈ ds, t.get? d.handle = some d.record

theorem declarations_ok (ht : t.Closed) {root : Shape} (hroot : ∀ h ∈ root.handles, t.InRange h) :
    ∃ ds, t.declarations root = .ok ds ∧ t.Declares root ds := by
  obtain ⟨found, hfound, hmem, hclosed⟩ := reachable_ok ht hroot
  obtain ⟨ds, hds, rfl, hrecords⟩ :=
    declare_ok (fun h hh => hclosed.inRange h (by simpa using hh)) 1
  refine ⟨ds, by rw [declarations, hfound]; exact hds, by simpa using hclosed.nodup, hmem, ?_,
    hrecords⟩
  intro d hd h hh
  simpa using hclosed.expanded _ (List.mem_map_of_mem hd) _ (hrecords d hd) h hh

/-! ## Reachable records -/

/-- A shape leads to the record at a handle : it mentions the handle, or a field of a record that it
leads to does. -/
inductive Reaches (t : RecordTable) (root : Shape) : Int → Prop
  | root {h : Int} (hh : h ∈ root.handles) : Reaches t root h
  | field {h k : Int} {r : Record} (hr : Reaches t root h) (hget : t.get? h = some r)
    (hk : k ∈ mentioned r) : Reaches t root k

/-- A run finds nothing but what the root leads to. -/
theorem reaches_of_reach {root : Shape} {fuel : Nat} {queue known found : List Int}
    (hq : ∀ h ∈ queue, t.Reaches root h) (hk : ∀ h ∈ known, t.Reaches root h)
    (h : t.reach fuel queue known = .ok found) : ∀ k ∈ found, t.Reaches root k := by
  induction fuel generalizing queue known with
  | zero =>
    cases queue with
    | nil =>
      rw [reach] at h
      exact Except.ok.inj h ▸ hk
    | cons => simp [reach] at h
  | succ fuel ih =>
    cases queue with
    | nil =>
      rw [reach] at h
      exact Except.ok.inj h ▸ hk
    | cons handle queue =>
      cases hr : t.get? handle with
      | none => simp [reach, hr] at h
      | some r =>
        have hfresh : ∀ k ∈ fresh known (mentioned r), t.Reaches root k := fun k hmem =>
          .field (hq handle (List.mem_cons_self ..)) hr (mem_fresh.1 hmem).1
        rw [reach, hr] at h
        refine ih (fun k hmem => ?_) (fun k hmem => ?_) h
        · exact (List.mem_append.1 hmem).elim (fun hmem => hq k (List.mem_cons_of_mem _ hmem))
            (hfresh k)
        · exact (List.mem_append.1 hmem).elim (hk k) (hfresh k)

/-- The declared handles are those that the root leads to. -/
theorem mem_handles_iff_reaches (ht : t.Closed) {root : Shape}
    (hroot : ∀ h ∈ root.handles, t.InRange h) {ds : List Declaration}
    (hds : t.declarations root = .ok ds) {h : Int} :
    h ∈ ds.map Declaration.handle ↔ t.Reaches root h := by
  obtain ⟨found, hfound, -, hclosed⟩ := reachable_ok ht hroot
  obtain ⟨ds', hds', hhandles, -⟩ :=
    declare_ok (fun k hk => hclosed.inRange k (by simpa using hk)) 1
  obtain ⟨es, hes, hdeclares⟩ := declarations_ok ht hroot
  obtain rfl := Except.ok.inj (hds.symm.trans hes)
  have hsame : ds' = ds := by
    rw [declarations, hfound] at hds
    exact Except.ok.inj (hds'.symm.trans hds)
  constructor
  · intro hh
    have hstart : ∀ k ∈ fresh [] root.handles, t.Reaches root k := fun k hk =>
      .root (mem_fresh.1 hk).1
    rw [← hsame, hhandles] at hh
    exact reaches_of_reach hstart hstart hfound h hh
  · intro hh
    induction hh with
    | root hk => exact hdeclares.root _ hk
    | field _ hget hk ih =>
      obtain ⟨d, hd, rfl⟩ := List.mem_map.1 ih
      obtain rfl := Option.some.inj ((hdeclares.record d hd).symm.trans hget)
      exact hdeclares.mentioned d hd _ hk

end RecordTable

end JsonShape
