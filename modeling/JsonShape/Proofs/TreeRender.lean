import JsonShape.Proofs.Reached
import JsonShape.Proofs.Renaming

/-!
# What is written depends on the tree

Two tables may hold the same record at different handles. `RecordTable.counterpart` sends a handle
to the one that has the same tree in another table. Where two roots have the same tree, it carries
the search for declarations over from one table to the other, step by step (`reach_counterpart`), so
that the outlines differ in their handles only and are written alike (`render_eq_of_shows`).

An inferred outline shows the tree of its value (`inferValue_shows`). What is written for a value is
therefore known from its tree (`written_eq_of_infer`).
-/

namespace JsonShape

namespace RecordTable

/-- The handles name records with the same tree. -/
structure IsCounterpart (t u : RecordTable) (h k : Int) : Prop where
  left : (Shape.record h).Within t.size
  right : (Shape.record k).Within u.size
  tree : t.tree (.record h) = u.tree (.record k)

/-- The handle with the same tree in another table, if there is one. -/
noncomputable def counterpart (t u : RecordTable) (h : Int) : Int :=
  Classical.epsilon (t.IsCounterpart u h)

/-- A record of the same tree stands in the other table. -/
def Shared (t u : RecordTable) (h : Int) : Prop :=
  ∃ k, t.IsCounterpart u h k

variable {P : Tree → Prop} {t u : RecordTable}

theorem Shared.isCounterpart {h : Int} (hh : t.Shared u h) :
    t.IsCounterpart u h (t.counterpart u h) :=
  Classical.epsilon_spec hh

theorem IsCounterpart.unique (hu : u.Sound P) {h k : Int} (hk : t.IsCounterpart u h k) :
    t.counterpart u h = k := by
  have hc := Shared.isCounterpart ⟨k, hk⟩
  have heq := (hu.tree_inj hc.right hk.right).1 (hc.tree.symm.trans hk.tree)
  exact Shape.record.inj heq

/-- Different records have different counterparts. -/
theorem Shared.injective (ht : t.Sound P) {h k : Int} (hh : t.Shared u h) (hk : t.Shared u k)
    (heq : t.counterpart u h = t.counterpart u k) : h = k := by
  have hc := hh.isCounterpart
  have hd := hk.isCounterpart
  have htree : t.tree (.record h) = t.tree (.record k) := by rw [hc.tree, hd.tree, heq]
  exact Shape.record.inj ((ht.tree_inj hc.left hd.left).1 htree)

/-- A shape with the same tree is the shape with its handles sent to their counterparts. -/
theorem rename_of_tree_eq (ht : t.Sound P) (hu : u.Sound P) {x y : Shape} (hx : x.Within t.size)
    (hy : y.Within u.size) (h : t.tree x = u.tree y) :
    (∀ k ∈ x.handles, t.Shared u k) ∧ y = x.rename (t.counterpart u) := by
  induction x generalizing y with
  | array e ih =>
    obtain ⟨y, rfl, hy'⟩ := eq_array_of_tree hu.grounded hy h.symm
    obtain ⟨hshared, rfl⟩ := ih (y := y) hx hy hy'.symm
    exact ⟨hshared, rfl⟩
  | optional e ih =>
    obtain ⟨y, rfl, hy'⟩ := eq_optional_of_tree hu.grounded hy h.symm
    obtain ⟨hshared, rfl⟩ := ih (y := y) hx hy hy'.symm
    exact ⟨hshared, rfl⟩
  | record k =>
    obtain ⟨i, r, rfl, hr⟩ := exists_record hx
    have hfields := tree_record ht.grounded hr
    obtain ⟨j, q, rfl, -, -⟩ := eq_record_of_tree hu.grounded hy (h.symm.trans hfields)
    have hc : t.IsCounterpart u i j := ⟨hx, hy, h⟩
    refine ⟨by simpa [Shape.handles] using ⟨_, hc⟩, ?_⟩
    rw [Shape.rename, hc.unique hu]
  | _ =>
    refine ⟨by simp [Shape.handles], eq_leaf_of_tree hu.grounded hy ?_ (h.symm.trans ?_)⟩
    · trivial
    · rfl

theorem exists_get? {h : Int} (hh : (Shape.record h).Within t.size) :
    ∃ (i : Nat) (r : Record), h = i ∧ t.records[i]? = some r ∧ t.get? h = some r := by
  obtain ⟨i, r, rfl, hr⟩ := exists_record hh
  exact ⟨i, r, rfl, hr, by simp [get?, hr]⟩

/-- Fields with the same tree are the fields with their handles sent to their counterparts. -/
theorem field_of_tree_eq (ht : t.Sound P) (hu : u.Sound P) {f g : Field}
    (hf : f.shape.Within t.size) (hg : g.shape.Within u.size) (h : f.map t.tree = g.map u.tree) :
    (∀ k ∈ f.shape.handles, t.Shared u k) ∧ g = f.map (Shape.rename (t.counterpart u)) := by
  obtain ⟨hname, hkey, hshape⟩ := FieldOf.mk.inj h
  obtain ⟨hshared, hrename⟩ := rename_of_tree_eq ht hu hf hg hshape
  refine ⟨hshared, ?_⟩
  cases g
  simp_all [FieldOf.map]

/-- The record at a counterpart is the record with its handles sent to their counterparts. -/
theorem Shared.get? (ht : t.Sound P) (hu : u.Sound P) {h : Int} (hh : t.Shared u h) :
    ∃ r, t.get? h = some r ∧
      u.get? (t.counterpart u h) = some (Record.rename (t.counterpart u) r) ∧
      ∀ k ∈ mentioned r, t.Shared u k := by
  have hc := hh.isCounterpart
  obtain ⟨i, r, rfl, hr, hget⟩ := exists_get? hc.left
  obtain ⟨j, q, hj, hq, hget'⟩ := exists_get? hc.right
  have htree := hc.tree
  rw [hj, tree_record ht.grounded hr, tree_record hu.grounded hq] at htree
  have hfields := Tree.record.inj htree
  have hfield : ∀ f ∈ r, ∀ g ∈ q, f.map t.tree = g.map u.tree → _ := fun f hf g hg =>
    field_of_tree_eq ht hu (ht.grounded.within hr hf) (hu.grounded.within hq hg)
  refine ⟨r, hget, ?_, fun k hk => ?_⟩
  · rw [hget', eq_map_of_map_eq_map hfields fun f hf g hg heq => (hfield f hf g hg heq).2]
    rfl
  · obtain ⟨f, hf, hkf⟩ := List.mem_flatMap.1 hk
    have hmem : f.map t.tree ∈ q.map (FieldOf.map u.tree) := hfields ▸ List.mem_map_of_mem hf
    obtain ⟨g, hg, heq⟩ := List.mem_map.1 hmem
    exact (hfield f hf g hg heq.symm).1 k hkf

/-! ## Carrying declarations over -/

/-- The search for declarations goes the same way in both tables. -/
theorem reach_counterpart (ht : t.Sound P) (hu : u.Sound P) {fuel : Nat}
    {queue known found : List Int} (hq : ∀ h ∈ queue, t.Shared u h)
    (hk : ∀ h ∈ known, t.Shared u h) (h : t.reach fuel queue known = .ok found) :
    (∀ h ∈ found, t.Shared u h) ∧
      u.reach fuel (queue.map (t.counterpart u)) (known.map (t.counterpart u)) =
        .ok (found.map (t.counterpart u)) := by
  induction fuel generalizing queue known with
  | zero =>
    cases queue with
    | nil =>
      rw [reach] at h
      obtain rfl := Except.ok.inj h
      exact ⟨hk, by rw [List.map_nil, reach]⟩
    | cons => simp [reach] at h
  | succ fuel ih =>
    cases queue with
    | nil =>
      rw [reach] at h
      obtain rfl := Except.ok.inj h
      exact ⟨hk, by rw [List.map_nil, reach]⟩
    | cons handle queue =>
      obtain ⟨r, hr, hr', hmentioned⟩ := (hq handle (List.mem_cons_self ..)).get? ht hu
      rw [reach, hr] at h
      have hfound : ∀ k ∈ fresh known (mentioned r), t.Shared u k :=
        fun k hk => hmentioned k (mem_fresh.1 hk).1
      have hall : ∀ k ∈ known ++ mentioned r, t.Shared u k := fun k hmem =>
        (List.mem_append.1 hmem).elim (hk k) (hmentioned k)
      have hfresh : fresh (known.map (t.counterpart u))
          (mentioned (Record.rename (t.counterpart u) r)) =
            (fresh known (mentioned r)).map (t.counterpart u) := by
        rw [mentioned_rename]
        exact fresh_map fun k hk l hl => (hall k hk).injective ht (hall l hl)
      rw [List.map_cons, reach, hr']
      simp only [hfresh, ← List.map_append]
      refine ih (fun k hmem => ?_) (fun k hmem => ?_) h
      · exact (List.mem_append.1 hmem).elim (fun hmem => hq k (List.mem_cons_of_mem _ hmem))
          (hfound k)
      · exact (List.mem_append.1 hmem).elim (hk k) (hfound k)

/-- Declaring counterparts gives the declarations with their handles sent to counterparts. -/
theorem declare_counterpart (ht : t.Sound P) (hu : u.Sound P) (hstem : u.stem = t.stem)
    {found : List Int} (hf : ∀ h ∈ found, t.Shared u h) {index : Nat} {ds : List Declaration}
    (h : t.declare index found = .ok ds) :
    u.declare index (found.map (t.counterpart u)) =
      .ok (ds.map (Declaration.rename (t.counterpart u))) := by
  induction found generalizing index ds with
  | nil =>
    obtain rfl := Except.ok.inj h
    rfl
  | cons handle found ih =>
    obtain ⟨r, hr, hr', -⟩ := (hf handle (List.mem_cons_self ..)).get? ht hu
    rw [declare, hr] at h
    cases hrest : t.declare (index + 1) found with
    | error fault => simp [hrest] at h
    | ok rest =>
      simp only [hrest] at h
      obtain rfl := Except.ok.inj h
      rw [List.map_cons, declare, hr', ih (fun k hk => hf k (List.mem_cons_of_mem _ hk)) hrest]
      simp only [declarationName, hstem]
      rfl

theorem inRange_of_within {x : Shape} (hx : x.Within t.size) : ∀ h ∈ x.handles, t.InRange h := by
  intro h hh
  obtain ⟨h0, hlt⟩ := hx h hh
  obtain ⟨-, r, -, -, hget⟩ := exists_get? (Shape.within_record.2 ⟨h0, hlt⟩)
  exact Option.isSome_iff_exists.2 ⟨r, hget⟩

theorem Grounded.closed (ht : t.Grounded) : t.Closed := by
  intro r hr h hh
  obtain ⟨i, hi⟩ := List.mem_iff_getElem?.1 hr
  obtain ⟨f, hf, hh⟩ := List.mem_flatMap.1 hh
  exact inRange_of_within (ht.within hi hf) h hh

/-- Roots with the same tree reach records with the same trees, in the same order. -/
theorem reachable_counterpart (ht : t.Sound P) (hu : u.Sound P) {x y : Shape}
    (hx : x.Within t.size) (hy : y.Within u.size) (h : t.tree x = u.tree y) {found : List Int}
    (hfound : t.reachable x = .ok found) :
    (∀ h ∈ found, t.Shared u h) ∧ u.reachable y = .ok (found.map (t.counterpart u)) := by
  obtain ⟨hshared, rfl⟩ := rename_of_tree_eq ht hu hx hy h
  have hfresh : fresh [] (x.rename (t.counterpart u)).handles =
      (fresh [] x.handles).map (t.counterpart u) := by
    rw [Shape.handles_rename, ← fresh_map]
    · rfl
    · exact fun k hk l hl => (hshared k hk).injective ht (hshared l hl)
  have hstart : ∀ k ∈ fresh [] x.handles, t.Shared u k := fun k hk => hshared k (mem_fresh.1 hk).1
  obtain ⟨hall, hreach⟩ := reach_counterpart ht hu hstart hstart hfound
  obtain ⟨found', hfound', -, -⟩ := reachable_ok hu.grounded.closed (inRange_of_within hy)
  refine ⟨hall, ?_⟩
  -- The two searches may be allowed different numbers of steps; with the larger one they agree.
  rw [hfound']
  rw [reachable, hfresh] at hfound'
  have h1 := reach_mono (le_max_left (2 * t.size + 1) (2 * u.size + 1)) hreach
  have h2 := reach_mono (le_max_right (2 * t.size + 1) (2 * u.size + 1)) hfound'
  exact h2.symm.trans h1

theorem declarations_counterpart (ht : t.Sound P) (hu : u.Sound P) (hstem : u.stem = t.stem)
    {x y : Shape} (hx : x.Within t.size) (hy : y.Within u.size) (h : t.tree x = u.tree y)
    {ds : List Declaration} (hds : t.declarations x = .ok ds) :
    u.declarations y = .ok (ds.map (Declaration.rename (t.counterpart u))) ∧
      ∀ d ∈ ds, t.Shared u d.handle := by
  obtain ⟨found, hfound, -, hclosed⟩ := reachable_ok ht.grounded.closed (inRange_of_within hx)
  obtain ⟨hall, hreach⟩ := reachable_counterpart ht hu hx hy h hfound
  obtain ⟨ds', hds', hhandles, -⟩ :=
    declare_ok (fun k hk => hclosed.inRange k (by simpa using hk)) 1
  rw [declarations, hfound] at hds
  obtain rfl := Except.ok.inj (hds'.symm.trans hds)
  refine ⟨?_, fun d hd => hall _ (hhandles ▸ List.mem_map_of_mem hd)⟩
  rw [declarations, hreach]
  exact declare_counterpart ht hu hstem hall hds

end RecordTable

/-! ## Outlines -/

/-- The outline of a shape with a given tree, over a sound table that names records by a stem. -/
structure Outline.Shows (P : Tree → Prop) (stem : String) (T : Tree) (x : Outline) : Prop where
  sound : x.table.Sound P
  stem : x.table.stem = stem
  within : x.root.Within x.table.size
  tree : x.table.tree x.root = T
  declarations : x.table.declarations x.root = .ok x.declarations

variable {P : Tree → Prop} {stem : String} {T : Tree} {x y : Outline}

theorem Outline.Shows.renames (hx : x.Shows P stem T) (hy : y.Shows P stem T) :
    Outline.Renames (x.table.counterpart y.table) x y := by
  have htree : x.table.tree x.root = y.table.tree y.root := hx.tree.trans hy.tree.symm
  have hstem : y.table.stem = x.table.stem := hy.stem.trans hx.stem.symm
  obtain ⟨hds, hshared⟩ := RecordTable.declarations_counterpart hx.sound hy.sound hstem hx.within
    hy.within htree hx.declarations
  obtain ⟨ds, hds', hdeclares⟩ := RecordTable.declarations_ok hx.sound.grounded.closed
    (RecordTable.inRange_of_within hx.within)
  obtain rfl := Except.ok.inj (hx.declarations.symm.trans hds')
  have hhandles : ∀ k ∈ x.handles, x.table.Shared y.table k := by
    intro k hk
    obtain ⟨d, hd, rfl⟩ := List.mem_map.1 hk
    exact hshared d hd
  exact
    { root := (RecordTable.rename_of_tree_eq hx.sound hy.sound hx.within hy.within htree).2
      declarations := Except.ok.inj (hy.declarations.symm.trans hds)
      injective := fun k hk l hl => (hhandles k hk).injective hx.sound (hhandles l hl)
      root_declared := hdeclares.root
      mentioned_declared := hdeclares.mentioned }

/-- Outlines of one tree are written alike in every format, with the same events. -/
theorem render_eq_of_shows (hx : x.Shows P stem T) (hy : y.Shows P stem T) (format : String)
    (validate : Bool) : render format validate x = render format validate y :=
  ((hx.renames hy).render_eq format validate).symm

namespace Session

variable {s : Session} {o : Options}

theorem outline_gives (hs : s.table.Sound P) {root : Shape} (h : s.table.Reads P root T) :
    Gives P (fun _ x T => Outline.Shows P s.table.stem T x) (outline root) s (.ok T) := by
  obtain ⟨hk, rfl⟩ := h
  obtain ⟨ds, hds, -⟩ := RecordTable.declarations_ok hs.grounded.closed
    (RecordTable.inRange_of_within hk.within)
  have hrun : (declarations root).run s =
      (.ok ds, { s with events := s.events ++ [.reached ds.length s.table.size] }) := by
    rw [declarations, run_bind_ok (run_get s)]
    simp only [hds]
    rfl
  refine ⟨⟨root, s.table, ds⟩, { s with events := s.events ++ [.reached ds.length s.table.size] },
    ?_, ⟨RecordTable.Grows.refl _, hs⟩, hs, rfl, hk.within, rfl, hds⟩
  rw [outline, run_bind_ok hrun]
  rfl

/-- The outline of a value shows the tree of the value. -/
theorem inferOutline_gives (hP : Tree.Inferred o P) (hs : s.table.Sound P) (v : Value) :
    Gives P (fun _ x T => Outline.Shows P s.table.stem T x) (inferOutline o v) s
      (Tree.infer o v) := by
  have hinfer := infer_gives hP v hs
  unfold inferOutline
  cases hT : Tree.infer o v with
  | error fault =>
    rw [hT] at hinfer
    exact hinfer.bind_error
  | ok T =>
    rw [hT] at hinfer
    refine hinfer.bind fun root s₁ h₁ hroot => ?_
    refine (outline_gives h₁.sound hroot).bind fun x s₂ h₂ hx => ?_
    rw [h₁.grows.stem] at hx
    exact Gives.report h₂.sound fun s₃ h₃ => Gives.pure (h₃.symm ▸ h₂.sound) hx

end Session

/-- A value's outline shows its tree, or inference of the value fails as that of the tree does. -/
theorem inferValue_shows {o : Options} (hP : Tree.Inferred o P) (v : Value) :
    (∃ T x, Tree.infer o v = .ok T ∧ (inferValue o v).1 = .ok x ∧ x.Shows P o.recordPrefix T) ∨
      ∃ fault, Tree.infer o v = .error fault ∧ (inferValue o v).1 = .error fault := by
  have hgives := Session.inferOutline_gives hP (s := Session.fresh o) (Session.sound_start P _) v
  cases hT : Tree.infer o v with
  | ok T =>
    rw [hT] at hgives
    obtain ⟨x, s', hrun, -, hx⟩ := hgives
    exact Or.inl ⟨T, x, rfl, by rw [inferValue, hrun], hx⟩
  | error fault =>
    rw [hT] at hgives
    obtain ⟨s', hrun, -⟩ := hgives
    exact Or.inr ⟨fault, rfl, by rw [inferValue, hrun]⟩

/-! ## What is written for a value -/

/-- What is written for a value in the format of that name : a text, or the fault that inference or
rendering gives. -/
def written (o : Options) (format : String) (validate : Bool) (v : Value) :
    Except (Fault ⊕ RenderFault) String :=
  match (inferValue o v).1 with
  | .error fault => .error (.inl fault)
  | .ok x => (render format validate x).1.mapError .inr

section Written

variable {o : Options} {format : String} {validate : Bool} {v w : Value}

/-- Inference of a value fails as that of its tree does. -/
theorem inferValue_eq_error_iff {fault : Fault} :
    (inferValue o v).1 = .error fault ↔ Tree.infer o v = .error fault := by
  rcases inferValue_shows (Tree.inferred_formed fun _ => rfl) v (o := o)
    (P := Tree.Formed NamedByKey true true) with ⟨T, x, hT, hx, -⟩ | ⟨fault', hT, hx⟩
  · simp [hT, hx]
  · simp [hT, hx]

/-- The outline that inference returns for a value shows the value's tree. -/
theorem exists_tree_of_inferValue {x : Outline} (h : (inferValue o v).1 = .ok x) :
    ∃ T, Tree.infer o v = .ok T ∧
      x.Shows (Tree.Formed NamedByKey true true) o.recordPrefix T := by
  obtain ⟨T, y, hT, hy, hshows⟩ | ⟨fault, -, hfault⟩ :=
    inferValue_shows (Tree.inferred_formed fun _ => rfl) v
  · obtain rfl := Except.ok.inj (hy.symm.trans h)
    exact ⟨T, hT, hshows⟩
  · cases hfault.symm.trans h

/-- Inference returns on every value where texts do not count as numbers. -/
theorem exists_inferValue_of_not_coerced (hc : o.coerceNumericStrings = false) (v : Value) :
    ∃ x, (inferValue o v).1 = .ok x := by
  cases h : (inferValue o v).1 with
  | ok x => exact ⟨x, rfl⟩
  | error fault =>
    have hcoerced := (Tree.fault_of_infer (inferValue_eq_error_iff.1 h)).1
    cases hc.symm.trans hcoerced

theorem written_eq_error {fault : Fault} (h : Tree.infer o v = .error fault) :
    written o format validate v = .error (.inl fault) := by
  rw [written, inferValue_eq_error_iff.2 h]

/-- What is written for a value is known from its tree. -/
theorem written_eq_of_infer {T : Tree} (hv : Tree.infer o v = .ok T) (hw : Tree.infer o w = .ok T) :
    written o format validate v = written o format validate w := by
  cases hx : (inferValue o v).1 with
  | error fault => cases (inferValue_eq_error_iff.1 hx).symm.trans hv
  | ok x =>
    cases hy : (inferValue o w).1 with
    | error fault => cases (inferValue_eq_error_iff.1 hy).symm.trans hw
    | ok y =>
      obtain ⟨_, hT, hshows⟩ := exists_tree_of_inferValue hx
      obtain rfl := Except.ok.inj (hT.symm.trans hv)
      obtain ⟨_, hT', hshows'⟩ := exists_tree_of_inferValue hy
      obtain rfl := Except.ok.inj (hT'.symm.trans hw)
      simp only [written, hx, hy, render_eq_of_shows hshows hshows']

end Written

end JsonShape
