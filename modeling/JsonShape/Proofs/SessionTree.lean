import JsonShape.Proofs.TreeUnify

/-!
# Sessions through trees

Interning and unification work on handles and change the table as they go. Seen through
`RecordTable.tree` they are functions : `Gives` says that an action on a session has the result
that its counterpart on trees has, or the same fault, and that it only adds to the table.

A table keeps its records in a list and their handles in a dictionary. `RecordTable.Indexed` says
that the two are inverse to each other, and so that no record is stored twice. A table is `Sound`
for a property of trees if it is grounded and indexed, and the trees of all its records have the
property. `intern_gives` and `unify_gives` hold for every property that
unification keeps (`Tree.Kept`), so what is proved of trees reaches each record that any action
ever stores. The depth that `Session.unify` allows is enough on every grounded table.
-/

namespace JsonShape

/-! ## List and dictionary -/

/-- The dictionary has a handle for a record exactly if the record is stored there. -/
def RecordTable.Indexed (t : RecordTable) : Prop :=
  ∀ (r : Record) (i : Nat), t.lookup r = some i ↔ t.records[i]? = some r

namespace RecordTable

variable {t u : RecordTable} {r : Record}

theorem indexed_start (stem : String) : ({ stem := stem } : RecordTable).Indexed := by
  intro r i
  simp [lookup]

theorem Indexed.lookup_eq_none (ht : t.Indexed) : t.lookup r = none ↔ r ∉ t.records := by
  rw [Option.eq_none_iff_forall_ne_some, List.mem_iff_getElem?, not_exists]
  exact forall_congr' fun i => not_congr (ht r i)

theorem Indexed.nodup (ht : t.Indexed) : t.records.Nodup := by
  refine List.nodup_iff_getElem?_ne_getElem?.2 fun i j hij hj heq => ?_
  have hlast : t.lookup t.records[j] = some j := (ht _ j).2 (List.getElem?_eq_getElem hj)
  have hfirst : t.lookup t.records[j] = some i :=
    (ht _ i).2 (heq.trans (List.getElem?_eq_getElem hj))
  exact hij.ne (Option.some.inj (hfirst.symm.trans hlast))

/-- A record that is found stays at its handle. -/
theorem Indexed.lookup_of_grows (hu : u.Indexed) (ht : t.Indexed) (h : t.Grows u) {i : Nat}
    (hi : t.lookup r = some i) : u.lookup r = some i := by
  obtain ⟨rest, hrest⟩ := h.records
  have hget := (ht r i).1 hi
  refine (hu r i).2 ?_
  rw [← hrest, List.getElem?_append_left (List.getElem?_eq_some_iff.1 hget).1, hget]

theorem grows_push (t : RecordTable) (r : Record) : t.Grows (t.push r) :=
  ⟨rfl, List.prefix_append _ _⟩

@[simp] theorem size_push (t : RecordTable) (r : Record) : (t.push r).size = t.size + 1 := by
  simp [size, push]

theorem getElem?_push_eq (t : RecordTable) (r : Record) : (t.push r).records[t.size]? = some r := by
  simp [size, push]

/-- What a handle of the grown table stands for was there before or is new. -/
theorem getElem?_push {q : Record} {i : Nat} :
    (t.push r).records[i]? = some q ↔ t.records[i]? = some q ∨ i = t.size ∧ q = r := by
  rcases Nat.lt_trichotomy i t.size with hlt | rfl | hgt
  · rw [push, List.getElem?_append_left hlt]
    simp [hlt.ne]
  · have hnone : t.records[t.size]? = none := List.getElem?_eq_none (Nat.le_refl _)
    rw [getElem?_push_eq, hnone]
    simp [eq_comm]
  · have hnone : t.records[i]? = none := List.getElem?_eq_none hgt.le
    have hnone' : (t.push r).records[i]? = none :=
      List.getElem?_eq_none ((size_push t r).trans_le hgt)
    rw [hnone, hnone']
    simp [hgt.ne']

/-- A record that is added gets the next handle, and all other records keep what they have. -/
theorem lookup_push (t : RecordTable) (r q : Record) :
    (t.push r).lookup q = if q = r then some t.size else t.lookup q := by
  rw [lookup, push, List.lookup_cons]
  by_cases h : q = r
  · simp [h]
  · rw [if_neg h, beq_false_of_ne h]
    rfl

/-- The dictionary stays the inverse of the list if a record is added that it does not have. -/
theorem Indexed.push (ht : t.Indexed) (hr : t.lookup r = none) : (t.push r).Indexed := by
  intro q i
  rw [lookup_push, getElem?_push]
  by_cases hq : q = r
  · have hnot : ¬t.records[i]? = some r := fun h => ht.lookup_eq_none.1 hr (List.mem_of_getElem? h)
    simp [hq, hnot, eq_comm]
  · rw [if_neg hq, ht q i]
    simp [hq]

end RecordTable

/-! ## Sound tables -/

/-- Grounded, with the dictionary as inverse of the list, and with the property for the tree of
every record. -/
structure RecordTable.Sound (P : Tree → Prop) (t : RecordTable) : Prop where
  grounded : t.Grounded
  indexed : t.Indexed
  holds : ∀ T ∈ t.trees, P T

/-- The shape names records of the table, and its tree has the property. -/
structure RecordTable.Knows (P : Tree → Prop) (t : RecordTable) (s : Shape) : Prop where
  within : s.Within t.size
  holds : P (t.tree s)

/-- The session has come from another one by adding records to its table, which is sound. -/
structure Session.Advances (P : Tree → Prop) (s s' : Session) : Prop where
  grows : s.table.Grows s'.table
  sound : s'.table.Sound P

/-- The action has a result that reads as expected, or the fault expected. -/
def Session.Gives {α β : Type} (P : Tree → Prop) (R : RecordTable → α → β → Prop) (x : Action α)
    (s : Session) : Except Fault β → Prop
  | .ok b => ∃ a s', x.run s = (.ok a, s') ∧ s.Advances P s' ∧ R s'.table a b
  | .error e => ∃ s', x.run s = (.error e, s') ∧ s.Advances P s'

/-- A shape reads as a tree. -/
def RecordTable.Reads (P : Tree → Prop) (t : RecordTable) (s : Shape) (T : Tree) : Prop :=
  t.Knows P s ∧ t.tree s = T

/-- Fields read as fields of trees. -/
def RecordTable.ReadsFields (P : Tree → Prop) (t : RecordTable) (fs : RecordOf Shape)
    (Ts : RecordOf Tree) : Prop :=
  (∀ f ∈ fs, t.Knows P f.shape) ∧ fs.map (FieldOf.map t.tree) = Ts

section

variable {P : Tree → Prop} {t u : RecordTable} {s s' : Session}

theorem RecordTable.Knows.grow {x : Shape} (h : t.Knows P x) (hg : t.Grows u) : u.Knows P x :=
  ⟨hg.within h.within, hg.tree_eq h.within ▸ h.holds⟩

theorem RecordTable.Reads.grow {x : Shape} {T : Tree} (h : t.Reads P x T) (hg : t.Grows u) :
    u.Reads P x T :=
  ⟨h.1.grow hg, (hg.tree_eq h.1.within).trans h.2⟩

theorem RecordTable.map_tree_grow {fs : RecordOf Shape} (h : ∀ f ∈ fs, t.Knows P f.shape)
    (hg : t.Grows u) : fs.map (FieldOf.map u.tree) = fs.map (FieldOf.map t.tree) :=
  List.map_congr_left fun f hf => by simp only [FieldOf.map, hg.tree_eq (h f hf).within]

theorem RecordTable.ReadsFields.grow {fs : RecordOf Shape} {Ts : RecordOf Tree}
    (h : t.ReadsFields P fs Ts) (hg : t.Grows u) : u.ReadsFields P fs Ts :=
  ⟨fun f hf => (h.1 f hf).grow hg, (map_tree_grow h.1 hg).trans h.2⟩

theorem RecordTable.Sound.tree_inj (ht : t.Sound P) {x y : Shape} (hx : x.Within t.size)
    (hy : y.Within t.size) : t.tree x = t.tree y ↔ x = y :=
  ⟨tree_injective ht.grounded ht.indexed.nodup hx hy, fun h => h ▸ rfl⟩

theorem RecordTable.Sound.knows_record (ht : t.Sound P) {i : Nat} {r : Record}
    (hr : t.records[i]? = some r) : t.Knows P (.record i) := by
  have hi : i < t.size := (List.getElem?_eq_some_iff.1 hr).1
  refine ⟨by simp; omega, ht.holds _ ?_⟩
  have hget : t.trees[i]? = some (t.tree (.record i)) := by
    rw [tree, Shape.unfold, Int.toNat_natCast, List.getElem?_eq_getElem (by simpa using hi)]
    rfl
  exact List.mem_of_getElem? hget

namespace Session

theorem Advances.refl (h : s.table.Sound P) : s.Advances P s :=
  ⟨RecordTable.Grows.refl _, h⟩

theorem Advances.trans {s'' : Session} (h : s.Advances P s') (h' : s'.Advances P s'') :
    s.Advances P s'' :=
  ⟨h.grows.trans h'.grows, h'.sound⟩

/-! ## Running actions -/

variable {α β γ δ : Type}

theorem run_get (s : Session) : (get : Action Session).run s = (.ok s, s) :=
  rfl

theorem run_report (e : Event) (s : Session) :
    (report e).run s = (.ok (), { s with events := s.events ++ [e] }) :=
  rfl

theorem run_bind (x : Action α) (f : α → Action β) (s : Session) :
    (x >>= f).run s = ExceptT.bindCont f (x.run s).1 (x.run s).2 :=
  rfl

theorem run_bind_ok {x : Action α} {f : α → Action β} {a : α} (h : x.run s = (.ok a, s')) :
    (x >>= f).run s = (f a).run s' := by
  rw [run_bind, h]
  rfl

theorem run_bind_error {x : Action α} {f : α → Action β} {e : Fault}
    (h : x.run s = (.error e, s')) : (x >>= f).run s = (.error e, s') := by
  rw [run_bind, h]
  rfl

theorem run_record (h : Int) (s : Session) :
    (record h).run s = ((s.table.get? h).elim (.error .handleOutOfRange) .ok, s) := by
  rw [record, run_bind_ok (run_get s)]
  cases s.table.get? h <;> rfl

variable {R : RecordTable → α → β → Prop} {Q : RecordTable → γ → δ → Prop}

theorem Gives.pure (hs : s.table.Sound P) {a : α} {b : β} (h : R s.table a b) :
    Gives P R (Pure.pure a) s (.ok b) :=
  ⟨a, s, rfl, Advances.refl hs, h⟩

/-- A result is passed on to what comes next. -/
theorem Gives.bind {x : Action α} {f : α → Action γ} {b : β} {r : Except Fault δ}
    (h : Gives P R x s (.ok b))
    (hf : ∀ a s', s.Advances P s' → R s'.table a b → Gives P Q (f a) s' r) :
    Gives P Q (x >>= f) s r := by
  obtain ⟨a, s', hrun, hadv, hR⟩ := h
  have hnext := hf a s' hadv hR
  cases r with
  | ok d =>
    obtain ⟨c, s'', hrun', hadv', hQ⟩ := hnext
    exact ⟨c, s'', (run_bind_ok hrun).trans hrun', hadv.trans hadv', hQ⟩
  | error e =>
    obtain ⟨s'', hrun', hadv'⟩ := hnext
    exact ⟨s'', (run_bind_ok hrun).trans hrun', hadv.trans hadv'⟩

/-- A fault ends the work. -/
theorem Gives.bind_error {x : Action α} {f : α → Action γ} {e : Fault}
    (h : Gives P R x s (.error e)) : Gives P Q (x >>= f) s (.error e) := by
  obtain ⟨s', hrun, hadv⟩ := h
  exact ⟨s', run_bind_error hrun, hadv⟩

/-- Reporting changes nothing that matters here. -/
theorem Gives.report {e : Event} {x : Action α} {r : Except Fault β} (hs : s.table.Sound P)
    (h : ∀ s' : Session, s'.table = s.table → Gives P R x s' r) :
    Gives P R (do Session.report e; x) s r := by
  have hrep : Gives P (fun t (_ : Unit) (_ : Unit) => t = s.table) (Session.report e) s (.ok ()) :=
    ⟨(), _, run_report e s, ⟨RecordTable.Grows.refl _, hs⟩, rfl⟩
  exact hrep.bind fun _ s' _ ht => h s' ht

/-! ## Interning -/

/-- The session with a record stored and its handle announced. -/
def push (s : Session) (r : Record) : Session where
  table := s.table.push r
  events := s.events ++ [.interned s.table.size (RecordOf.names r)]

theorem push_table (s : Session) (r : Record) : (s.push r).table = s.table.push r :=
  rfl

theorem run_intern (fields : List Field) (s : Session) :
    (intern fields).run s =
      match s.table.lookup (RecordOf.sorted fields) with
      | some handle => (.ok (.record handle), s)
      | none => (.ok (.record s.table.size), s.push (RecordOf.sorted fields)) := by
  simp only [intern]
  rw [run_bind_ok (run_get s)]
  cases s.table.lookup (RecordOf.sorted fields) <;> rfl

theorem run_intern_stored {fields : List Field} {handle : Nat}
    (h : s.table.lookup (RecordOf.sorted fields) = some handle) :
    (intern fields).run s = (.ok (.record handle), s) := by
  rw [run_intern, h]

theorem run_intern_new {fields : List Field}
    (h : s.table.lookup (RecordOf.sorted fields) = none) :
    (intern fields).run s = (.ok (.record s.table.size), s.push (RecordOf.sorted fields)) := by
  rw [run_intern, h]

end Session

namespace RecordTable

theorem trees_push (t : RecordTable) (r : Record) :
    (t.push r).trees = t.trees ++ [.record (r.map (FieldOf.map t.tree))] :=
  unfoldRecords_append t.records r

/-- A new record that mentions records of the table can be added. -/
theorem Sound.push (ht : t.Sound P) {r : Record} (hr : t.lookup r = none)
    (hw : ∀ f ∈ r, f.shape.Within t.size) (hP : P (.record (r.map (FieldOf.map t.tree)))) :
    (t.push r).Sound P where
  grounded := by
    intro i q hq f hf
    rcases getElem?_push.1 hq with h | ⟨rfl, rfl⟩
    · exact ht.grounded i q h f hf
    · exact hw f hf
  indexed := ht.indexed.push hr
  holds := by
    intro T hT
    rw [trees_push, List.mem_append, List.mem_singleton] at hT
    rcases hT with h | rfl
    · exact ht.holds T h
    · exact hP

end RecordTable

namespace Session

/-- Interning gives the record of the fields, sorted. -/
theorem intern_gives (hs : s.table.Sound P) {fs : RecordOf Shape} {Ts : RecordOf Tree}
    (h : s.table.ReadsFields P fs Ts) (hP : P (.record (RecordOf.sorted Ts))) :
    Gives P (RecordTable.Reads P) (intern fs) s (.ok (.record (RecordOf.sorted Ts))) := by
  have hsorted : (RecordOf.sorted fs).map (FieldOf.map s.table.tree) = RecordOf.sorted Ts := by
    rw [← RecordOf.sorted_map, h.2]
  cases hl : s.table.lookup (RecordOf.sorted fs) with
  | some i =>
    have hget := (hs.indexed _ i).1 hl
    refine ⟨.record i, s, run_intern_stored hl, Advances.refl hs, hs.knows_record hget, ?_⟩
    rw [RecordTable.tree_record hs.grounded hget, hsorted]
  | none =>
    have hsound : (s.table.push (RecordOf.sorted fs)).Sound P := by
      refine hs.push hl (fun f hf => ?_) (hsorted.symm ▸ hP)
      exact (h.1 f (RecordOf.mem_sorted.1 hf)).within
    have hget := RecordTable.getElem?_push_eq s.table (RecordOf.sorted fs)
    have hgrow := RecordTable.grows_push s.table (RecordOf.sorted fs)
    refine ⟨.record s.table.size, _, run_intern_new hl, ⟨hgrow, hsound⟩,
      hsound.knows_record hget, ?_⟩
    rw [push_table, RecordTable.tree_record hsound.grounded hget, ← hsorted]
    congr 1
    exact RecordTable.map_tree_grow (fun f hf => h.1 f (RecordOf.mem_sorted.1 hf)) hgrow

end Session

/-! ## Shapes and their trees -/

@[simp] theorem Shape.handles_markOptional (x : Shape) : x.markOptional.handles = x.handles := by
  cases x <;> rfl

@[simp] theorem Shape.handles_dropOptional (x : Shape) : x.dropOptional.handles = x.handles := by
  cases x <;> rfl

@[simp] theorem Shape.handles_alone (o : Options) (x : Shape) :
    (x.alone o).handles = x.handles := by
  unfold Shape.alone
  split
  · exact handles_markOptional x
  · rfl

namespace RecordTable

theorem exists_tree_record (ht : t.Grounded) {h : Int} (hh : (Shape.record h).Within t.size) :
    ∃ fs, t.tree (.record h) = .record fs := by
  obtain ⟨i, r, rfl, hr⟩ := exists_record hh
  exact ⟨_, tree_record ht hr⟩

theorem tree_isOptional (ht : t.Grounded) {x : Shape} (hx : x.Within t.size) :
    (t.tree x).isOptional = x.isOptional := by
  cases x with
  | record h =>
    obtain ⟨fs, hfs⟩ := exists_tree_record ht hx
    rw [hfs]
    rfl
  | _ => rfl

theorem tree_isNumeric (ht : t.Grounded) {x : Shape} (hx : x.Within t.size) :
    (t.tree x).isNumeric = x.isNumeric := by
  cases x with
  | record h =>
    obtain ⟨fs, hfs⟩ := exists_tree_record ht hx
    rw [hfs]
    rfl
  | _ => rfl

theorem tree_dropOptional (ht : t.Grounded) {x : Shape} (hx : x.Within t.size) :
    t.tree x.dropOptional = (t.tree x).dropOptional := by
  cases x with
  | record h =>
    obtain ⟨fs, hfs⟩ := exists_tree_record ht hx
    show t.tree (.record h) = _
    rw [hfs]
    rfl
  | _ => rfl

theorem tree_markOptional (ht : t.Grounded) {x : Shape} (hx : x.Within t.size) :
    t.tree x.markOptional = (t.tree x).markOptional := by
  cases x with
  | record h =>
    obtain ⟨fs, hfs⟩ := exists_tree_record ht hx
    show Tree.optional (t.tree (.record h)) = _
    rw [hfs]
    rfl
  | _ => rfl

theorem tree_alone (ht : t.Grounded) (o : Options) {x : Shape} (hx : x.Within t.size) :
    t.tree (x.alone o) = (t.tree x).alone o := by
  unfold Shape.alone Tree.alone
  split
  · exact tree_markOptional ht hx
  · rfl

/-- The rules see the same in two shapes as in their trees. -/
theorem tree_eq_leaf_iff (ht : t.Grounded) {x l : Shape} (hx : x.Within t.size)
    (hl : l.IsLeaf) : t.tree x = t.tree l ↔ x = l :=
  ⟨eq_leaf_of_tree ht hx hl, fun h => h ▸ rfl⟩

end RecordTable

/-- A property of trees that passes to parts and that unification keeps. -/
structure Tree.Kept (o : Options) (P : Tree → Prop) : Prop where
  array : ∀ {e : Tree}, P (.array e) → P e
  record : ∀ {fs : List (FieldOf Tree)}, P (.record fs) → ∀ f ∈ fs, P f.shape
  optional : ∀ {x : Tree}, P (.optional x) → P x
  alone : ∀ {x : Tree}, P x → P (x.alone o)
  unify : ∀ {x y : Tree}, P x → P y → P (x.unify o y)

theorem Tree.Kept.dropOptional {o : Options} (hP : Tree.Kept o P) {x : Tree} (h : P x) :
    P x.dropOptional := by
  cases x with
  | optional x => exact hP.optional h
  | _ => exact h

theorem RecordTable.Knows.alone {o : Options} (hP : Tree.Kept o P) (ht : t.Grounded) {x : Shape}
    (h : t.Knows P x) : t.Knows P (x.alone o) := by
  refine ⟨by simpa [Shape.Within] using h.within, ?_⟩
  rw [tree_alone ht o h.within]
  exact hP.alone h.holds

theorem RecordTable.Knows.dropOptional {o : Options} (hP : Tree.Kept o P) (ht : t.Grounded)
    {x : Shape} (h : t.Knows P x) : t.Knows P x.dropOptional := by
  refine ⟨by simpa [Shape.Within] using h.within, ?_⟩
  rw [tree_dropOptional ht h.within]
  exact hP.dropOptional h.holds

namespace Session

variable {o : Options}

/-! ## Merging -/

/-- Combining two shapes gives what combining their trees does, where that has a result. -/
def Follows (P : Tree → Prop) (join : Shape → Shape → Action Shape)
    (joinTree : Tree → Tree → Option Tree) : Prop :=
  ∀ {s : Session} {a b : Shape} {c : Tree}, s.table.Sound P → s.table.Knows P a →
    s.table.Knows P b → joinTree (s.table.tree a) (s.table.tree b) = some c →
    Gives P (RecordTable.Reads P) (join a b) s (.ok c)

theorem record_gives (hP : Tree.Kept o P) (hs : s.table.Sound P) {i : Int} {fs : RecordOf Tree}
    (h : s.table.Reads P (.record i) (.record fs)) :
    Gives P (RecordTable.ReadsFields P) (record i) s (.ok fs) := by
  obtain ⟨hk, htree⟩ := h
  obtain ⟨n, r, rfl, hr⟩ := RecordTable.exists_record hk.within
  have hget : s.table.get? n = some r := by simp [RecordTable.get?, hr]
  rw [RecordTable.tree_record hs.grounded hr] at htree
  obtain rfl := Tree.record.inj htree
  refine ⟨r, s, ?_, Advances.refl hs, fun f hf => ⟨hs.grounded.within hr hf, ?_⟩, rfl⟩
  · rw [record, run_bind_ok (run_get s), hget]
    rfl
  · have hrec := hk.holds
    rw [RecordTable.tree_record hs.grounded hr] at hrec
    exact hP.record hrec _ (List.mem_map_of_mem hf)

/-- Merging fields follows merging their trees. -/
theorem mergeRight_gives {join : Shape → Shape → Action Shape}
    {joinTree : Tree → Tree → Option Tree} (hP : Tree.Kept o P) (hjoin : Follows P join joinTree)
    {right acc : RecordOf Shape} {Ts Us m : RecordOf Tree} (hs : s.table.Sound P)
    (ha : s.table.ReadsFields P acc Ts) (hr : s.table.ReadsFields P right Us)
    (hm : RecordOf.mergeRight (Tree.alone o) joinTree Ts Us = some m) :
    Gives P (RecordTable.ReadsFields P) (RecordOf.mergeRight (Shape.alone o) join acc right) s
      (.ok m) := by
  induction right generalizing acc Ts Us s with
  | nil =>
    obtain rfl := hr.2
    obtain rfl := Option.some.inj hm
    exact Gives.pure hs ha
  | cons g right ih =>
    obtain ⟨hk, rfl⟩ := hr
    obtain ⟨hka, rfl⟩ := ha
    have hg := hk g (List.mem_cons_self ..)
    have hright : s.table.ReadsFields P right (right.map (FieldOf.map s.table.tree)) :=
      ⟨fun f hf => hk f (List.mem_cons_of_mem _ hf), rfl⟩
    rw [List.map_cons, RecordOf.mergeRight, FieldOf.map_name, RecordOf.find?_map] at hm
    rw [RecordOf.mergeRight]
    cases hfind : acc.find? g.name with
    | none =>
      rw [hfind] at hm
      refine ih hs ⟨fun f hf => ?_, ?_⟩ hright hm
      · rcases List.mem_append.1 hf with hf | hf
        · exact hka f hf
        · rw [List.mem_singleton.1 hf]
          exact hg.alone hP hs.grounded
      · simp [FieldOf.map, RecordTable.tree_alone hs.grounded o hg.within]
    | some f =>
      rw [hfind] at hm
      obtain ⟨c, hc, hm⟩ := Option.bind_eq_some_iff.1 hm
      have hf := hka f (RecordOf.mem_of_find? hfind)
      refine (hjoin hs hf hg hc).bind fun z s' hadv hz => ?_
      obtain ⟨hkz, rfl⟩ := hz
      have hacc : s'.table.ReadsFields P acc (acc.map (FieldOf.map s.table.tree)) :=
        RecordTable.ReadsFields.grow ⟨hka, rfl⟩ hadv.grows
      refine ih hadv.sound ⟨fun f' hf' => ?_, ?_⟩ (hright.grow hadv.grows) hm
      · rcases RecordOf.mem_put hf' with rfl | hf'
        · exact hkz
        · exact hacc.1 f' hf'
      · rw [← RecordOf.put_map, hacc.2]
        rfl

theorem merge_gives {join : Shape → Shape → Action Shape}
    {joinTree : Tree → Tree → Option Tree} (hP : Tree.Kept o P) (hjoin : Follows P join joinTree)
    {left right : RecordOf Shape} {Ts Us m : RecordOf Tree} (hs : s.table.Sound P)
    (hl : s.table.ReadsFields P left Ts) (hr : s.table.ReadsFields P right Us)
    (hm : RecordOf.merge (Tree.alone o) joinTree Ts Us = some m) :
    Gives P (RecordTable.ReadsFields P) (RecordOf.merge (Shape.alone o) join left right) s
      (.ok m) := by
  obtain ⟨hkl, rfl⟩ := hl
  obtain ⟨hkr, rfl⟩ := hr
  obtain ⟨m', hm', he⟩ := Option.bind_eq_some_iff.1 hm
  obtain rfl := Option.some.inj he
  have hby : s.table.ReadsFields P left.byName
      (RecordOf.byName (left.map (FieldOf.map s.table.tree))) :=
    ⟨fun f hf => hkl f (RecordOf.mem_byName hf), (RecordOf.byName_map _ _).symm⟩
  refine (mergeRight_gives hP hjoin hs hby ⟨hkr, rfl⟩ hm').bind fun fs s' hadv hfs => ?_
  obtain ⟨hk, rfl⟩ := hfs
  refine Gives.pure hadv.sound ⟨fun f hf => ?_, ?_⟩
  · obtain ⟨g, hg, rfl | rfl⟩ := RecordOf.mem_markMissing hf
    · exact hk f hg
    · exact (hk g hg).alone hP hadv.sound.grounded
  · refine (RecordOf.markMissing_map (by simp) (by simp) fun f hf => ?_).symm
    exact RecordTable.tree_alone hadv.sound.grounded o (hk f hf).within

/-! ## Unification -/

section Step

variable {join : Shape → Shape → Action Shape} {joinTree : Tree → Tree → Option Tree}
  {a b : Shape} {c : Tree}

theorem unifyParts_gives (hP : Tree.Kept o P) (hjoin : Follows P join joinTree)
    (hs : s.table.Sound P) (ha : s.table.Knows P a) (hb : s.table.Knows P b) (hPc : P c)
    (hrule : Tree.rule (s.table.tree a) (s.table.tree b) =
      Tree.partsRule (s.table.tree a) (s.table.tree b))
    (hc : Tree.unifyStep o joinTree (s.table.tree a) (s.table.tree b) = some c) :
    Gives P (RecordTable.Reads P) (unifyParts o join a b) s (.ok c) := by
  rw [Tree.unifyStep, hrule] at hc
  unfold unifyParts
  split
  · rename_i x y
    obtain ⟨z, hz, rfl⟩ := Option.map_eq_some_iff.1 hc
    have hx : s.table.Knows P x := ⟨ha.within, hP.array ha.holds⟩
    have hy : s.table.Knows P y := ⟨hb.within, hP.array hb.holds⟩
    refine (hjoin hs hx hy hz).bind fun e s' hadv he => ?_
    obtain ⟨hk, rfl⟩ := he
    exact Gives.pure hadv.sound ⟨⟨hk.within, hPc⟩, rfl⟩
  · rename_i i j
    obtain ⟨fs, hfs⟩ := RecordTable.exists_tree_record hs.grounded ha.within
    obtain ⟨gs, hgs⟩ := RecordTable.exists_tree_record hs.grounded hb.within
    rw [hfs, hgs] at hc
    obtain ⟨m, hm, rfl⟩ := Option.map_eq_some_iff.1 hc
    refine (record_gives hP hs ⟨ha, hfs⟩).bind fun left s₁ h₁ hleft => ?_
    refine (record_gives hP h₁.sound
      (RecordTable.Reads.grow ⟨hb, hgs⟩ h₁.grows)).bind fun right s₂ h₂ hright => ?_
    refine (merge_gives hP hjoin h₂.sound (hleft.grow h₂.grows) hright hm).bind
      fun fields s₃ h₃ hfields => ?_
    exact intern_gives h₃.sound hfields hPc
  · rename_i harray hrecord
    have hany : Tree.partsRule (s.table.tree a) (s.table.tree b) = .settled .any := by
      unfold Tree.partsRule
      split
      · rename_i hx hy
        obtain ⟨x, rfl, -⟩ := RecordTable.eq_array_of_tree hs.grounded ha.within hx
        obtain ⟨y, rfl, -⟩ := RecordTable.eq_array_of_tree hs.grounded hb.within hy
        exact (harray x y rfl rfl).elim
      · rename_i hx hy
        obtain ⟨i, -, rfl, -⟩ := RecordTable.eq_record_of_tree hs.grounded ha.within hx
        obtain ⟨j, -, rfl, -⟩ := RecordTable.eq_record_of_tree hs.grounded hb.within hy
        exact (hrecord i j rfl rfl).elim
      · rfl
    rw [hany] at hc
    obtain rfl := Option.some.inj hc
    refine Gives.report hs fun s' hs' => ?_
    have hsound : s'.table.Sound P := hs'.symm ▸ hs
    exact Gives.pure hsound ⟨⟨Shape.within_of_handles_eq_nil rfl, hPc⟩, rfl⟩

/-- A rule followed on shapes is the rule followed on their trees. -/
theorem unifyStep_gives (hP : Tree.Kept o P) (hjoin : Follows P join joinTree)
    (hs : s.table.Sound P) (ha : s.table.Knows P a) (hb : s.table.Knows P b) (hPc : P c)
    (hc : Tree.unifyStep o joinTree (s.table.tree a) (s.table.tree b) = some c) :
    Gives P (RecordTable.Reads P) (unifyStep o join a b) s (.ok c) := by
  have settled : ∀ {x : Shape}, x.Within s.table.size →
      Tree.rule (s.table.tree a) (s.table.tree b) = .settled (s.table.tree x) →
      Gives P (RecordTable.Reads P) (pure x) s (.ok c) := by
    intro x hx hT
    rw [Tree.unifyStep, hT] at hc
    obtain rfl := Option.some.inj hc
    exact Gives.pure hs ⟨⟨hx, hPc⟩, rfl⟩
  have hany : ∀ {x : Shape}, s.table.Knows P x → (s.table.tree x = .any ↔ x = .any) :=
    fun hx => RecordTable.tree_eq_leaf_iff (l := .any) hs.grounded hx.within trivial
  have hundef : ∀ {x : Shape}, s.table.Knows P x → (s.table.tree x = .undefined ↔ x = .undefined) :=
    fun hx => RecordTable.tree_eq_leaf_iff (l := .undefined) hs.grounded hx.within trivial
  have hstring : ∀ {x : Shape}, s.table.Knows P x → (s.table.tree x = .string ↔ x = .string) :=
    fun hx => RecordTable.tree_eq_leaf_iff (l := .string) hs.grounded hx.within trivial
  have hopt : ∀ {x : Shape}, s.table.Knows P x → (s.table.tree x).isOptional = x.isOptional :=
    fun hx => RecordTable.tree_isOptional hs.grounded hx.within
  have hnum : ∀ {x : Shape}, s.table.Knows P x → (s.table.tree x).isNumeric = x.isNumeric :=
    fun hx => RecordTable.tree_isNumeric hs.grounded hx.within
  have hnil : ∀ {x : Shape}, x.handles = [] → x.Within s.table.size :=
    fun h => Shape.within_of_handles_eq_nil h
  -- The conditions of the rules, one after the other, are the same on both levels.
  unfold unifyStep
  by_cases h1 : a = .any ∨ b = .any
  · rw [if_pos h1]
    rw [← hany ha, ← hany hb] at h1
    exact settled (hnil rfl) (by rw [Tree.rule, if_pos h1]; rfl)
  rw [if_neg h1]
  rw [← hany ha, ← hany hb] at h1
  by_cases h2 : a = b
  · rw [if_pos h2]
    rw [← hs.tree_inj ha.within hb.within] at h2
    exact settled ha.within (by rw [Tree.rule, if_neg h1, if_pos h2])
  rw [if_neg h2]
  rw [← hs.tree_inj ha.within hb.within] at h2
  by_cases h3 : a = .undefined
  · rw [if_pos h3]
    rw [← hundef ha] at h3
    exact settled hb.within (by rw [Tree.rule, if_neg h1, if_neg h2, if_pos h3])
  rw [if_neg h3]
  rw [← hundef ha] at h3
  by_cases h4 : b = .undefined
  · rw [if_pos h4]
    rw [← hundef hb] at h4
    exact settled ha.within (by rw [Tree.rule, if_neg h1, if_neg h2, if_neg h3, if_pos h4])
  rw [if_neg h4]
  rw [← hundef hb] at h4
  by_cases h5 : (a.isOptional || b.isOptional) = true
  · rw [if_pos h5]
    rw [Bool.or_eq_true, ← hopt ha, ← hopt hb] at h5
    have hrule : Tree.rule (s.table.tree a) (s.table.tree b) = .inside := by
      rw [Tree.rule, if_neg h1, if_neg h2, if_neg h3, if_neg h4, if_pos h5]
    rw [Tree.unifyStep, hrule] at hc
    obtain ⟨z, hz, rfl⟩ := Option.map_eq_some_iff.1 hc
    rw [← RecordTable.tree_dropOptional hs.grounded ha.within,
      ← RecordTable.tree_dropOptional hs.grounded hb.within] at hz
    refine (hjoin hs (ha.dropOptional hP hs.grounded) (hb.dropOptional hP hs.grounded) hz).bind
      fun inner s' hadv hinner => ?_
    obtain ⟨hk, rfl⟩ := hinner
    have htree := RecordTable.tree_markOptional hadv.sound.grounded hk.within
    refine Gives.pure hadv.sound ⟨⟨?_, htree ▸ hPc⟩, htree⟩
    simpa [Shape.Within] using hk.within
  rw [if_neg h5]
  rw [Bool.or_eq_true, ← hopt ha, ← hopt hb] at h5
  by_cases h6 : (a.isNumeric && b.isNumeric) = true
  · rw [if_pos h6]
    rw [Bool.and_eq_true, ← hnum ha, ← hnum hb] at h6
    refine settled (hnil rfl) ?_
    rw [Tree.rule, if_neg h1, if_neg h2, if_neg h3, if_neg h4, if_neg h5, if_pos h6]
    rfl
  rw [if_neg h6]
  rw [Bool.and_eq_true, ← hnum ha, ← hnum hb] at h6
  have hstr : ((a.isNumeric && b == .string || a == .string && b.isNumeric) = true) ↔
      ((s.table.tree a).isNumeric ∧ s.table.tree b = .string ∨
        s.table.tree a = .string ∧ (s.table.tree b).isNumeric) := by
    rw [hnum ha, hnum hb, hstring ha, hstring hb]
    simp
  by_cases h7 : (a.isNumeric && b == .string || a == .string && b.isNumeric) = true
  · rw [if_pos h7]
    refine settled (hnil rfl) ?_
    rw [Tree.rule, if_neg h1, if_neg h2, if_neg h3, if_neg h4, if_neg h5, if_neg h6,
      if_pos (hstr.1 h7)]
    rfl
  rw [if_neg h7]
  refine unifyParts_gives hP hjoin hs ha hb hPc ?_ hc
  rw [Tree.rule, if_neg h1, if_neg h2, if_neg h3, if_neg h4, if_neg h5, if_neg h6,
    if_neg (mt hstr.2 h7)]

end Step

/-- Unification to a bounded depth follows unification of the trees to that depth. -/
theorem unifyWithin_gives (hP : Tree.Kept o P) {n : Nat} {a b : Shape} {c : Tree}
    (hs : s.table.Sound P) (ha : s.table.Knows P a) (hb : s.table.Knows P b)
    (hc : Tree.unifyWithin o n (s.table.tree a) (s.table.tree b) = some c) :
    Gives P (RecordTable.Reads P) (unifyWithin o n a b) s (.ok c) := by
  induction n generalizing s a b c with
  | zero => simp [Tree.unifyWithin] at hc
  | succ n ih =>
    have hPc : P c := Tree.unify_eq_of_unifyWithin hc ▸ hP.unify ha.holds hb.holds
    exact unifyStep_gives hP ih hs ha hb hPc hc

end Session

/-! ## Enough depth -/

/-- Number of constructors in the shapes of records. -/
def recordsWeight (rs : List Record) : Nat :=
  rs.foldr (fun r n => Session.recordWeight r + n) 0

theorem size_le_recordWeight {r : Record} {f : Field} (hf : f ∈ r) :
    f.shape.size ≤ Session.recordWeight r := by
  induction r with
  | nil => simp at hf
  | cons g r ih =>
    have hcons : Session.recordWeight (g :: r) = g.shape.size + Session.recordWeight r := rfl
    rcases List.mem_cons.1 hf with rfl | hf
    · omega
    · have := ih hf
      omega

theorem recordsWeight_append (rs qs : List Record) :
    recordsWeight (rs ++ qs) = recordsWeight rs + recordsWeight qs := by
  induction rs with
  | nil => simp [recordsWeight]
  | cons r rs ih =>
    have hcons : ∀ ps, recordsWeight (r :: ps) = Session.recordWeight r + recordsWeight ps :=
      fun _ => rfl
    rw [List.cons_append, hcons, hcons, ih, Nat.add_assoc]

/-- The records up to a handle weigh no more than all of them. -/
theorem recordsWeight_take_succ_le {rs : List Record} {i j : Nat} {r : Record}
    (hr : rs[i]? = some r) (hij : i < j) :
    recordsWeight (rs.take i) + Session.recordWeight r ≤ recordsWeight (rs.take j) := by
  obtain ⟨hi, rfl⟩ := List.getElem?_eq_some_iff.1 hr
  have htake : rs.take j = rs.take i ++ [rs[i]] ++ (rs.take j).drop (i + 1) := by
    conv_lhs => rw [← List.take_append_drop (i + 1) (rs.take j)]
    rw [List.take_take, Nat.min_eq_left hij, List.take_append_getElem hi]
  rw [htake, recordsWeight_append, recordsWeight_append]
  simp [recordsWeight]

theorem Shape.one_le_size (x : Shape) : 1 ≤ x.size := by
  cases x <;> simp [size]

/-- A tree over a grounded table fits the number of constructors that it was made from. -/
theorem fits_tree (ht : t.Grounded) {K : Nat}
    (hK : ∀ (i : Nat) (r : Record), t.records[i]? = some r → ∀ f ∈ r, f.shape.size ≤ K) :
    ∀ (i : Nat) {x : Shape} {k d : Nat}, x.Within i → i ≤ t.size → x.size ≤ K → x.size ≤ k →
      x.size + recordsWeight (t.records.take i) ≤ d → Tree.Fits K k d (t.tree x) := by
  intro i
  induction i using Nat.strongRecOn with
  | ind i ih =>
    intro x
    induction x with
    | array e ihe =>
      intro k d hx hi hxK _ hd
      simp only [Shape.size] at hxK hd
      obtain ⟨d, rfl⟩ : ∃ d', d = d' + 1 := ⟨d - 1, by omega⟩
      exact Tree.Fits.array (ihe hx hi (by omega) (by omega) (by omega)) k
    | optional y ihy =>
      intro k d hx hi hxK hk hd
      simp only [Shape.size] at hxK hk hd
      obtain ⟨k, rfl⟩ : ∃ k', k = k' + 1 := ⟨k - 1, by omega⟩
      exact Tree.Fits.optional (ihy hx hi (by omega) (by omega) (by omega))
    | record h =>
      intro k d hx hi _ _ hd
      obtain ⟨j, r, rfl, hr⟩ := RecordTable.exists_record (hx.mono hi)
      have hj : j < i := by simpa using (Shape.within_record.1 hx).2
      have hw := recordsWeight_take_succ_le hr hj
      simp only [Shape.size] at hd
      obtain ⟨d, rfl⟩ : ∃ d', d = d' + 1 := ⟨d - 1, by omega⟩
      rw [RecordTable.tree_record ht hr]
      refine Tree.Fits.record (fun f hf => ?_) k
      obtain ⟨g, hg, rfl⟩ := List.mem_map.1 hf
      have hsize := hK j r hr g hg
      have hle := size_le_recordWeight hg
      exact ih j hj (ht j r hr g hg) (by omega) hsize hsize (by omega)
    | _ =>
      intros
      exact Tree.Fits.leaf (by trivial) _ _

namespace Session

/-- The depth that unification allows is enough on a grounded table. -/
theorem unifyWithin_unifyDepth (o : Options) (ht : t.Grounded) {a b : Shape}
    (ha : a.Within t.size) (hb : b.Within t.size) :
    Tree.unifyWithin o (unifyDepth t a b) (t.tree a) (t.tree b) =
      some (Tree.unify o (t.tree a) (t.tree b)) := by
  have hweight : weight t a b = a.size + b.size + recordsWeight t.records := rfl
  have ha1 := a.one_le_size
  have hall : recordsWeight (t.records.take t.size) = recordsWeight t.records := by
    rw [RecordTable.size, List.take_length]
  have hK : ∀ (i : Nat) (r : Record), t.records[i]? = some r → ∀ f ∈ r,
      f.shape.size ≤ weight t a b := by
    intro i r hr f hf
    have h1 := size_le_recordWeight hf
    have h2 := recordsWeight_take_succ_le hr (List.getElem?_eq_some_iff.1 hr).1
    rw [List.take_length] at h2
    omega
  have hdepth : weight t a b + weight t a b * (weight t a b + 1) < unifyDepth t a b := by
    unfold unifyDepth
    simp only [Nat.mul_add, Nat.add_mul]
    omega
  obtain ⟨c, hc, -⟩ := Tree.exists_unifyWithin o (K := weight t a b) (by omega) hdepth
    (fits_tree ht hK t.size ha le_rfl (by omega) (by omega) (by omega))
    (fits_tree ht hK t.size hb le_rfl (by omega) (by omega) (by omega))
  rw [hc, Tree.unify_eq_of_unifyWithin hc]

/-- Unification gives what the trees unify to, on every sound table. -/
theorem unify_gives (hP : Tree.Kept o P) {a b : Shape} (hs : s.table.Sound P)
    (ha : s.table.Knows P a) (hb : s.table.Knows P b) :
    Gives P (RecordTable.Reads P) (unify o a b) s
      (.ok (Tree.unify o (s.table.tree a) (s.table.tree b))) := by
  obtain ⟨c, s', hrun, h⟩ := unifyWithin_gives hP hs ha hb
    (unifyWithin_unifyDepth o hs.grounded ha.within hb.within)
  exact ⟨c, s', (run_bind_ok (run_get s)).trans hrun, h⟩

theorem unify_gives_of_reads (hP : Tree.Kept o P) {a b : Shape} {A B : Tree}
    (hs : s.table.Sound P) (ha : s.table.Reads P a A) (hb : s.table.Reads P b B) :
    Gives P (RecordTable.Reads P) (unify o a b) s (.ok (A.unify o B)) := by
  rw [← ha.2, ← hb.2]
  exact unify_gives hP hs ha.1 hb.1

end Session

end

end JsonShape
