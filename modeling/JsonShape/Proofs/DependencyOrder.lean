import JsonShape.Proofs.Declared
import JsonShape.Render.Pydantic

/-!
# The order of models

Models are listed by a descent : `visit` marks a declaration as visited, descends into what it
mentions, and lists it on the way back. Where every declaration mentions only declared handles, all
of them smaller than its own, a descent runs through ever smaller handles and meets none that is
still open. So what a declaration mentions is listed before it.

`Progress.Sound` is what holds between two visits, with the open handles as a parameter. A visit
keeps it and lists the handle visited (`visit_sound`). So the whole list is a permutation of the
declarations in which each comes after those it mentions (`dependencyOrder_sound`). No descent uses
up the depth allowed to it, so the list is the same with any larger one
(`dependencyOrder_eq_of_lt`).
-/

namespace JsonShape

/-- What a declaration of the list mentions is declared before it. -/
def MentionsEarlier (ds : List Declaration) : Prop :=
  ∀ before d after, ds = before ++ d :: after →
    ∀ h ∈ RecordTable.mentioned d.record, h ∈ before.map Declaration.handle

theorem MentionsEarlier.append {ds : List Declaration} (hds : MentionsEarlier ds) {d : Declaration}
    (hd : ∀ h ∈ RecordTable.mentioned d.record, h ∈ ds.map Declaration.handle) :
    MentionsEarlier (ds ++ [d]) := by
  intro before e after heq h hh
  rcases List.eq_nil_or_concat after with rfl | ⟨rest, last, rfl⟩
  · obtain ⟨rfl, hlast⟩ := List.append_inj' heq rfl
    obtain rfl := List.singleton_inj.1 hlast
    exact hd h hh
  · have hassoc : ds ++ [d] = (before ++ e :: rest) ++ [last] := by
      rw [heq, List.concat_eq_append, List.append_assoc, List.cons_append]
    exact hds before e rest (List.append_inj' hassoc rfl).1 h hh

namespace Pydantic

/-- Declarations among which a descent ends : each handle is declared once, and what a declaration
mentions is declared too, at a smaller handle. -/
structure Descending (ds : List Declaration) : Prop where
  nodup : (ds.map Declaration.handle).Nodup
  declared : ∀ d ∈ ds, ∀ h ∈ RecordTable.mentioned d.record, h ∈ ds.map Declaration.handle
  smaller : ∀ d ∈ ds, ∀ h ∈ RecordTable.mentioned d.record, h < d.handle

/-- Between two visits : what was visited is open or listed and not both, and what is listed comes
after what it mentions. -/
structure Progress.Sound (ds : List Declaration) (opened : List Int) (p : Progress) : Prop where
  ordered : MentionsEarlier p.listed
  nodup : (p.listed.map Declaration.handle).Nodup
  declared : ∀ d ∈ p.listed, d ∈ ds
  visited_iff : ∀ h, h ∈ p.visited ↔ h ∈ opened ∨ h ∈ p.listed.map Declaration.handle
  unlisted : ∀ h ∈ opened, h ∉ p.listed.map Declaration.handle

/-- Open handles of a descent that goes on at a handle, with the steps that are left to it. -/
structure Descent (ds : List Declaration) (opened : List Int) (fuel : Nat) (h : Int) : Prop where
  declared : h ∈ ds.map Declaration.handle
  below : ∀ k ∈ opened, h < k
  opened_nodup : opened.Nodup
  opened_declared : ∀ k ∈ opened, k ∈ ds.map Declaration.handle
  fuel : ds.length < fuel + opened.length

variable {ds : List Declaration} {opened : List Int} {p q : Progress} {h : Int}

theorem Descent.start (hh : h ∈ ds.map Declaration.handle) :
    Descent ds [] (ds.length + 1) h :=
  ⟨hh, by simp, List.nodup_nil, by simp, by simp⟩

/-- There are fewer open handles than declarations, so a step is left. -/
theorem Descent.exists_fuel {fuel : Nat} (hd : Descent ds opened fuel h) : ∃ n, fuel = n + 1 := by
  have hsub := (List.subperm_of_subset hd.opened_nodup hd.opened_declared).length_le
  have hfuel := hd.fuel
  rw [List.length_map] at hsub
  exact ⟨fuel - 1, by omega⟩

/-- A descent goes on at what the declaration mentions. -/
theorem Descent.into {fuel : Nat} (hds : Descending ds) {d : Declaration} (hd : d ∈ ds)
    (hdescent : Descent ds opened (fuel + 1) d.handle) {k : Int}
    (hk : k ∈ RecordTable.mentioned d.record) : Descent ds (d.handle :: opened) fuel k where
  declared := hds.declared d hd k hk
  below := by
    intro l hl
    have hkd := hds.smaller d hd k hk
    rcases List.mem_cons.1 hl with rfl | hl
    · exact hkd
    · exact Int.lt_trans hkd (hdescent.below l hl)
  opened_nodup := List.nodup_cons.2
    ⟨fun hmem => Int.lt_irrefl _ (hdescent.below _ hmem), hdescent.opened_nodup⟩
  opened_declared := List.forall_mem_cons.2 ⟨hdescent.declared, hdescent.opened_declared⟩
  fuel := by
    have := hdescent.fuel
    rw [List.length_cons]
    omega

/-- The declaration that was not visited yet is opened. -/
theorem Progress.Sound.opening (hp : p.Sound ds opened) (hh : h ∉ p.visited) :
    Progress.Sound ds (h :: opened) { p with visited := h :: p.visited } where
  ordered := hp.ordered
  nodup := hp.nodup
  declared := hp.declared
  visited_iff := fun k => by simp [hp.visited_iff, or_assoc]
  unlisted := by
    refine List.forall_mem_cons.2 ⟨fun hlisted => hh ?_, hp.unlisted⟩
    exact (hp.visited_iff h).2 (Or.inr hlisted)

/-- The open declaration is listed once all that it mentions is. -/
theorem Progress.Sound.closing {d : Declaration} (hd : d ∈ ds) (hbelow : ∀ k ∈ opened, d.handle < k)
    (hq : q.Sound ds (d.handle :: opened))
    (hmentioned : ∀ k ∈ RecordTable.mentioned d.record, k ∈ q.listed.map Declaration.handle) :
    Progress.Sound ds opened { q with listed := q.listed ++ [d] } where
  ordered := hq.ordered.append hmentioned
  nodup := by
    have hnew := hq.unlisted d.handle (List.mem_cons_self ..)
    rw [List.map_append, List.map_singleton]
    exact List.nodup_append.2 ⟨hq.nodup, List.nodup_singleton _, fun k hk l hl heq =>
      hnew (List.mem_singleton.1 hl ▸ heq ▸ hk)⟩
  declared := by
    intro e he
    rcases List.mem_append.1 he with he | he
    · exact hq.declared e he
    · exact List.mem_singleton.1 he ▸ hd
  visited_iff := fun k => by
    rw [hq.visited_iff, List.map_append, List.mem_append, List.mem_cons, List.map_singleton,
      List.mem_singleton, or_assoc, or_left_comm, or_comm (a := k = d.handle)]
  unlisted := by
    intro k hk hlisted
    rw [List.map_append, List.map_singleton, List.mem_append, List.mem_singleton] at hlisted
    rcases hlisted with hlisted | rfl
    · exact hq.unlisted k (List.mem_cons_of_mem _ hk) hlisted
    · exact Int.lt_irrefl _ (hbelow _ hk)

/-- Visits that list their handles and keep what is listed do so over a whole list of handles. -/
theorem foldl_sound {f : Progress → Int → Progress} {ks : List Int}
    (hstep : ∀ p k, k ∈ ks → p.Sound ds opened →
      (f p k).Sound ds opened ∧ p.listed <+: (f p k).listed ∧
        k ∈ (f p k).listed.map Declaration.handle) (hp : p.Sound ds opened) :
    (ks.foldl f p).Sound ds opened ∧ p.listed <+: (ks.foldl f p).listed ∧
      ∀ k ∈ ks, k ∈ (ks.foldl f p).listed.map Declaration.handle := by
  induction ks generalizing p with
  | nil => exact ⟨hp, List.prefix_refl _, by simp⟩
  | cons k ks ih =>
    obtain ⟨hq, hpq, hk⟩ := hstep p k (List.mem_cons_self ..) hp
    obtain ⟨hr, hqr, hks⟩ := ih (fun p l hl => hstep p l (List.mem_cons_of_mem _ hl)) hq
    refine ⟨hr, hpq.trans hqr, List.forall_mem_cons.2 ⟨?_, hks⟩⟩
    exact (hqr.map Declaration.handle).subset hk

/-- A visit lists its handle, after all that it leads to. -/
theorem visit_sound (hds : Descending ds) {fuel : Nat} (hd : Descent ds opened fuel h)
    (hp : p.Sound ds opened) :
    (visit ds fuel p h).Sound ds opened ∧ p.listed <+: (visit ds fuel p h).listed ∧
      h ∈ (visit ds fuel p h).listed.map Declaration.handle := by
  induction fuel generalizing opened p h with
  | zero =>
    obtain ⟨n, hn⟩ := hd.exists_fuel
    omega
  | succ fuel ih =>
    rw [visit]
    by_cases hvisited : h ∈ p.visited
    · rw [if_pos (by simpa using hvisited)]
      -- An open handle is larger, so the handle is listed.
      have hlisted := ((hp.visited_iff h).1 hvisited).resolve_left fun hopen =>
        Int.lt_irrefl _ (hd.below h hopen)
      exact ⟨hp, List.prefix_refl _, hlisted⟩
    rw [if_neg (by simpa using hvisited)]
    obtain ⟨d, hfind⟩ : ∃ d, ds.find? (fun d => d.handle == h) = some d := by
      obtain ⟨e, he, heq⟩ := List.mem_map.1 hd.declared
      exact Option.isSome_iff_exists.1 (List.find?_isSome.2 ⟨e, he, by simp [heq]⟩)
    have hmem := List.mem_of_find?_eq_some hfind
    obtain rfl : d.handle = h := by simpa using List.find?_some hfind
    rw [hfind]
    obtain ⟨hq, hlisted, hall⟩ := foldl_sound
      (fun p k hk => ih (hd.into hds hmem hk)) (hp.opening hvisited)
    exact ⟨hq.closing hmem hd.below hall, hlisted.trans (List.prefix_append _ _), by simp⟩

/-- A descent needs no more steps than are left to it. -/
theorem visit_eq_of_le (hds : Descending ds) {fuel more : Nat} (hle : fuel ≤ more)
    (hd : Descent ds opened fuel h) (p : Progress) : visit ds more p h = visit ds fuel p h := by
  induction fuel generalizing more opened p h with
  | zero =>
    obtain ⟨n, hn⟩ := hd.exists_fuel
    omega
  | succ fuel ih =>
    obtain ⟨more, rfl⟩ : ∃ m, more = m + 1 := ⟨more - 1, by omega⟩
    rw [visit, visit]
    cases hfind : ds.find? (fun d => d.handle == h) with
    | none => rfl
    | some d =>
      obtain rfl : d.handle = h := by simpa using List.find?_some hfind
      have hfold := List.foldl_ext (visit ds more) (visit ds fuel)
        { p with visited := d.handle :: p.visited } fun q k hk =>
          ih (by omega) (hd.into hds (List.mem_of_find?_eq_some hfind) hk) q
      simp only [hfold]

/-- The order does not depend on the depth allowed, since no descent uses it up. -/
theorem dependencyOrder_eq_of_lt (hds : Descending ds) {fuel : Nat} (hfuel : ds.length < fuel) :
    ((ds.map Declaration.handle).foldl (visit ds fuel) {}).listed = dependencyOrder ds := by
  rw [dependencyOrder, List.foldl_ext (visit ds fuel) (visit ds (ds.length + 1)) {} fun q k hk =>
    visit_eq_of_le hds hfuel (Descent.start hk) q]

/-- All declarations are listed, each once and after those it mentions. -/
theorem dependencyOrder_sound (hds : Descending ds) :
    MentionsEarlier (dependencyOrder ds) ∧ (dependencyOrder ds).Perm ds := by
  have hstart : Progress.Sound ds [] {} :=
    ⟨fun before d after heq => by simp at heq, by simp, by simp, by simp, by simp⟩
  obtain ⟨hq, -, hall⟩ :=
    foldl_sound (fun p k hk => visit_sound hds (Descent.start hk)) hstart
  refine ⟨hq.ordered, (List.perm_ext_iff_of_nodup hq.nodup.of_map hds.nodup.of_map).2 fun d =>
    ⟨hq.declared d, fun hd => ?_⟩⟩
  obtain ⟨e, he, heq⟩ := List.mem_map.1 (hall d.handle (List.mem_map_of_mem hd))
  exact List.inj_on_of_nodup_map hds.nodup (hq.declared e he) hd heq ▸ he

end Pydantic

end JsonShape
