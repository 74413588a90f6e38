import JsonShape.Proofs.Schema

/-!
# Declarations stand in breadth-first order

`RecordTable.ReachesIn` counts the fields on a way from the root to a record, and
`RecordTable.Distance` is the length of a shortest one. `mentions` lists the handles as a reader
meets them : those of the root, then those in the fields of each declaration in turn.

The queue that finds the declarations adds a handle at its first mention and never again. So after
every step the known handles are those that the root and the records taken so far mention, without
repetitions (`reach_mentions`), and a finished run lists the declared handles in order of first
mention. That the distance never decreases follows from this order alone
(`idxOf_mentions_lt_of_reachesIn`) : all that is mentioned up to a record at distance `n` comes
before what no way of length `n + 1` leads to. Nothing is asked of the table but that its handles
lie in range; records may mention each other in a circle.
-/

namespace JsonShape

namespace RecordTable

variable {t : RecordTable} {root : Shape}

/-! ## Distances -/

/-- A way of `n` fields leads from the root to the record at a handle. -/
inductive ReachesIn (t : RecordTable) (root : Shape) : Nat → Int → Prop
  | root {h : Int} (hh : h ∈ root.handles) : ReachesIn t root 0 h
  | field {n : Nat} {h k : Int} {r : Record} (hr : ReachesIn t root n h)
    (hget : t.get? h = some r) (hk : k ∈ mentioned r) : ReachesIn t root (n + 1) k

/-- A shortest way from the root to the record at a handle has `n` fields. -/
structure Distance (t : RecordTable) (root : Shape) (h : Int) (n : Nat) : Prop where
  reaches : t.ReachesIn root n h
  least : ∀ m, t.ReachesIn root m h → n ≤ m

theorem Reaches.exists_reachesIn {h : Int} (hh : t.Reaches root h) :
    ∃ n, t.ReachesIn root n h := by
  induction hh with
  | root hh => exact ⟨0, .root hh⟩
  | field _ hget hk ih =>
    obtain ⟨n, hn⟩ := ih
    exact ⟨n + 1, .field hn hget hk⟩

theorem ReachesIn.reaches {n : Nat} {h : Int} (hh : t.ReachesIn root n h) : t.Reaches root h := by
  induction hh with
  | root hh => exact .root hh
  | field _ hget hk ih => exact .field ih hget hk

open Classical in
theorem Reaches.exists_distance {h : Int} (hh : t.Reaches root h) : ∃ n, t.Distance root h n :=
  ⟨Nat.find hh.exists_reachesIn, Nat.find_spec hh.exists_reachesIn,
    fun _ hm => Nat.find_min' hh.exists_reachesIn hm⟩

/-! ## First mentions -/

/-- The handles that the root and then the declarations mention, field by field, repetitions
included. -/
def mentions (root : Shape) (ds : List Declaration) : List Int :=
  root.handles ++ ds.flatMap fun d => mentioned d.record

/-- The handles that the record at a handle mentions. -/
def mentionedAt (t : RecordTable) (h : Int) : List Int :=
  ((t.get? h).map mentioned).getD []

theorem eraseDups_append_fresh (hs ks : List Int) :
    hs.eraseDups ++ fresh hs.eraseDups ks = (hs ++ ks).eraseDups := by
  have hcontains : ∀ k, hs.eraseDups.contains k = hs.contains k := fun k => by
    simp only [List.contains_eq_mem, List.mem_eraseDups]
  rw [List.eraseDups_append, fresh]
  simp only [hcontains]
  rfl

theorem idxOf_lt_of_mem_of_not_mem {before after : List Int} {h k : Int} (hh : h ∈ before)
    (hk : k ∉ before) : (before ++ after).idxOf h < (before ++ after).idxOf k := by
  have hlt := List.idxOf_lt_length_of_mem hh
  rw [List.idxOf_append_of_mem hh, List.idxOf_append_of_notMem hk]
  omega

/-- Handles without their repetitions stand in order of first appearance. -/
theorem pairwise_idxOf_eraseDups (hs : List Int) :
    hs.eraseDups.Pairwise fun h k => hs.idxOf h < hs.idxOf k := by
  induction hs using List.reverseRecOn with
  | nil => simp
  | append_singleton hs l ih =>
    have hbefore : hs.eraseDups.Pairwise fun h k => (hs ++ [l]).idxOf h < (hs ++ [l]).idxOf k :=
      ih.imp_of_mem fun {h k} hh hk hlt => by
        rw [List.mem_eraseDups] at hh hk
        rwa [List.idxOf_append_of_mem hh, List.idxOf_append_of_mem hk]
    rw [← eraseDups_append_fresh, List.pairwise_append]
    refine ⟨hbefore, (nodup_fresh _ _).imp_of_mem fun {h k} hh hk hne => ?_, fun h hh k hk => ?_⟩
    · rw [mem_fresh, List.mem_singleton] at hh hk
      exact absurd (hh.1.trans hk.1.symm) hne
    · rw [mem_fresh, List.mem_singleton, List.mem_eraseDups] at hk
      exact idxOf_lt_of_mem_of_not_mem (List.mem_eraseDups.1 hh) (hk.1 ▸ hk.2)

/-- The known handles are those mentioned by the root and by the records taken from the queue, in
order of first mention. A run keeps this. -/
theorem reach_mentions {fuel : Nat} {done queue found : List Int}
    (h : t.reach fuel queue (done ++ queue) = .ok found)
    (hknown : done ++ queue = (root.handles ++ done.flatMap t.mentionedAt).eraseDups) :
    found = (root.handles ++ found.flatMap t.mentionedAt).eraseDups := by
  induction fuel generalizing done queue with
  | zero =>
    cases queue with
    | nil =>
      rw [reach, List.append_nil] at h
      rw [List.append_nil] at hknown
      rwa [← Except.ok.inj h]
    | cons => simp [reach] at h
  | succ fuel ih =>
    cases queue with
    | nil =>
      rw [reach, List.append_nil] at h
      rw [List.append_nil] at hknown
      rwa [← Except.ok.inj h]
    | cons handle queue =>
      cases hr : t.get? handle with
      | none => simp [reach, hr] at h
      | some r =>
        have hassoc : ∀ new,
            (done ++ handle :: queue) ++ new = (done ++ [handle]) ++ (queue ++ new) :=
          fun new => by simp
        rw [reach, hr] at h
        simp only [hassoc] at h
        refine ih h ?_
        have hat : t.mentionedAt handle = mentioned r := by rw [mentionedAt, hr]; rfl
        rw [← hassoc, hknown, eraseDups_append_fresh]
        simp [hat]

/-- The declared handles are the mentioned ones, each at its first mention. -/
theorem handles_eq_eraseDups_mentions (ht : t.Closed) (hroot : ∀ h ∈ root.handles, t.InRange h)
    {ds : List Declaration} (hds : t.declarations root = .ok ds) :
    ds.map Declaration.handle = (mentions root ds).eraseDups := by
  obtain ⟨found, hfound, -, hclosed⟩ := reachable_ok ht hroot
  obtain ⟨es, hes, rfl, hrecords⟩ :=
    declare_ok (fun h hh => hclosed.inRange h (by simpa using hh)) 1
  rw [declarations, hfound] at hds
  obtain rfl := Except.ok.inj (hes.symm.trans hds)
  have hmentions : mentions root es =
      root.handles ++ (es.map Declaration.handle).flatMap t.mentionedAt := by
    rw [mentions, List.flatMap_map]
    congr 1
    refine List.flatMap_congr fun d hd => ?_
    rw [mentionedAt, hrecords d hd]
    rfl
  have hreach : t.reach (2 * t.size + 1) (fresh [] root.handles) ([] ++ fresh [] root.handles) =
      .ok (es.map Declaration.handle) := hfound
  rw [hmentions]
  exact reach_mentions hreach (by simp [fresh])

/-! ## Order of distances -/

/-- In a list of declarations in order of first mention, a record that `n` fields lead to is
mentioned before every record that no way of at most `n` fields leads to. -/
theorem idxOf_mentions_lt_of_reachesIn {ds : List Declaration}
    (hrecord : ∀ d ∈ ds, t.get? d.handle = some d.record)
    (hreaches : ∀ h, h ∈ ds.map Declaration.handle ↔ t.Reaches root h)
    (hordered : (ds.map Declaration.handle).Pairwise fun h k =>
      (mentions root ds).idxOf h < (mentions root ds).idxOf k)
    {n : Nat} {h k : Int} (hh : t.ReachesIn root n h) (hk : ∀ m ≤ n, ¬t.ReachesIn root m k) :
    (mentions root ds).idxOf h < (mentions root ds).idxOf k := by
  induction hh generalizing k with
  | root hh =>
    exact idxOf_lt_of_mem_of_not_mem hh fun hmem => hk 0 (Nat.le_refl 0) (.root hmem)
  | @field n p h r hp hget hmem ih =>
    obtain ⟨d, hd, rfl⟩ := List.mem_map.1 ((hreaches p).2 hp.reaches)
    obtain ⟨before, after, rfl⟩ := List.append_of_mem hd
    obtain rfl := Option.some.inj ((hrecord d hd).symm.trans hget)
    have hsplit : mentions root (before ++ d :: after) =
        mentions root (before ++ [d]) ++ after.flatMap fun d => mentioned d.record := by
      simp [mentions]
    -- A declaration up to `d` that mentioned `k` would lead to it in too few fields.
    have hfirst : k ∉ mentions root (before ++ [d]) := by
      intro hmem
      rcases List.mem_append.1 hmem with hmem | hmem
      · exact hk 0 (Nat.zero_le _) (.root hmem)
      obtain ⟨e, he, hmem⟩ := List.mem_flatMap.1 hmem
      have heds : e ∈ before ++ d :: after := by
        rw [List.append_cons]
        exact List.mem_append_left _ he
      have hlater := ih (k := e.handle) fun m hm hpath =>
        hk (m + 1) (by omega) (.field hpath (hrecord e heds) hmem)
      rcases List.mem_append.1 he with he | he
      · have hearlier := (List.pairwise_append.1 (List.map_append ▸ hordered)).2.2 e.handle
          (List.mem_map_of_mem he) d.handle (by simp)
        omega
      · rw [List.mem_singleton.1 he] at hlater
        omega
    rw [hsplit]
    refine idxOf_lt_of_mem_of_not_mem ?_ hfirst
    exact List.mem_append_right _ (List.mem_flatMap.2 ⟨d, by simp, hmem⟩)

/-- The declarations stand in breadth-first order : the distance from the root never decreases, and
what is mentioned first, by the root, by an earlier declaration or by an earlier field of the same
declaration, comes first. -/
structure BreadthFirst (t : RecordTable) (root : Shape) (ds : List Declaration) : Prop where
  distance : (ds.map Declaration.handle).Pairwise fun h k =>
    ∃ m n, t.Distance root h m ∧ t.Distance root k n ∧ m ≤ n
  mention : (ds.map Declaration.handle).Pairwise fun h k =>
    (mentions root ds).idxOf h < (mentions root ds).idxOf k

theorem breadthFirst_of_declarations (ht : t.Closed) (hroot : ∀ h ∈ root.handles, t.InRange h)
    {ds : List Declaration} (hds : t.declarations root = .ok ds) : t.BreadthFirst root ds := by
  obtain ⟨es, hes, hdeclares⟩ := declarations_ok ht hroot
  obtain rfl := Except.ok.inj (hds.symm.trans hes)
  have hreaches : ∀ h, h ∈ ds.map Declaration.handle ↔ t.Reaches root h := fun h =>
    mem_handles_iff_reaches ht hroot hds
  have hordered : (ds.map Declaration.handle).Pairwise fun h k =>
      (mentions root ds).idxOf h < (mentions root ds).idxOf k := by
    rw [handles_eq_eraseDups_mentions ht hroot hds]
    exact pairwise_idxOf_eraseDups _
  refine ⟨hordered.imp_of_mem fun {h k} hh hk hlt => ?_, hordered⟩
  obtain ⟨m, hm⟩ := ((hreaches h).1 hh).exists_distance
  obtain ⟨n, hn⟩ := ((hreaches k).1 hk).exists_distance
  refine ⟨m, n, hm, hn, Nat.le_of_not_lt fun hnm => ?_⟩
  -- Otherwise `h` is farther away than `k` and would be mentioned after it.
  have hafter := idxOf_mentions_lt_of_reachesIn hdeclares.record hreaches hordered hn.reaches
    (k := h) fun l hl hpath => by
      have := hm.least l hpath
      omega
  omega

theorem name_of_declarations {ds : List Declaration} (h : t.declarations root = .ok ds) {i : Nat}
    {d : Declaration} (hd : ds[i]? = some d) : d.name = t.declarationName (i + 1 : Nat) := by
  rw [declarations] at h
  cases hfound : t.reachable root with
  | error fault => simp [hfound] at h
  | ok found =>
    rw [hfound] at h
    have hnames := names_of_declare h
    have hi : i < found.length := by
      have hlength := congrArg List.length hnames
      rw [List.length_map, List.length_map, List.length_range'] at hlength
      exact hlength ▸ (List.getElem?_eq_some_iff.1 hd).1
    have hname := congrArg (·[i]?) hnames
    simp only [List.getElem?_map, hd, List.getElem?_range' hi, Option.map_some] at hname
    rw [Option.some.inj hname, Nat.one_mul, Nat.add_comm]

/-- On a table all of whose handles lie in range, records in a circle included, the declarations of
a root are found, and they are exactly the records that the root leads to, each once, in
breadth-first order. A record goes by its handle here. The declarations carry the records that the
table holds and are numbered from one on, under names that all differ. -/
theorem declarations_breadthFirst (ht : t.Closed) (hroot : ∀ h ∈ root.handles, t.InRange h) :
    ∃ ds, t.declarations root = .ok ds ∧ (ds.map Declaration.handle).Nodup ∧
      (∀ h, h ∈ ds.map Declaration.handle ↔ t.Reaches root h) ∧ t.BreadthFirst root ds ∧
      (∀ (i : Nat) (d : Declaration), ds[i]? = some d →
        d.name = t.declarationName (i + 1 : Nat) ∧ t.get? d.handle = some d.record) ∧
      (ds.map Declaration.name).Nodup := by
  obtain ⟨ds, hds, hdeclares⟩ := declarations_ok ht hroot
  exact ⟨ds, hds, hdeclares.nodup, fun h => mem_handles_iff_reaches ht hroot hds,
    breadthFirst_of_declarations ht hroot hds,
    fun i d hd => ⟨name_of_declarations hds hd, hdeclares.record d (List.mem_of_getElem? hd)⟩,
    nodup_names_of_declarations hds⟩

/-- Two records that mention each other, one that mentions itself, and one that nothing mentions. -/
def circle : RecordTable :=
  [[⟨"A", "a", .array (.record 2)⟩, ⟨"B", "b", .optional (.record 1)⟩],
    [⟨"C", "c", .record 1⟩, ⟨"D", "d", .record 0⟩], [⟨"E", "e", .record 0⟩],
    [⟨"F", "f", .record 0⟩]].foldl push {}

theorem closed_circle : circle.Closed := by
  unfold Closed InRange
  decide

theorem declarations_breadthFirst_circle :
    circle.Closed ∧ (∀ h ∈ (Shape.array (.record 0)).handles, circle.InRange h) ∧
      ∃ ds, circle.declarations (.array (.record 0)) = .ok ds ∧
        ds.map (fun d => (d.name, d.handle)) = [("S001", 0), ("S002", 2), ("S003", 1)] ∧
        circle.BreadthFirst (.array (.record 0)) ds := by
  have hroot : ∀ h ∈ (Shape.array (.record 0)).handles, circle.InRange h := by
    unfold InRange
    decide
  obtain ⟨ds, hds, -, -, hbreadth, -, -⟩ := declarations_breadthFirst closed_circle hroot
  have hfound : (circle.declarations (.array (.record 0))).map
      (List.map fun d => (d.name, d.handle)) = .ok [("S001", 0), ("S002", 2), ("S003", 1)] := by
    rfl
  rw [hds] at hfound
  exact ⟨closed_circle, hroot, ds, hds, Except.ok.inj hfound, hbreadth⟩

end RecordTable

end JsonShape
