import JsonShape.Proofs.LogFrame

/-!
# Files that are put aside

A log file that an entry would bring to its limit is put aside under the name with the number one,
what stood there under the next one, and so on. The names are moved from the last one on, so that
each finds its place free; that none is below another (`Log.Apart`) keeps the moves from each other.
By induction on the names every file moves on by one name (`Log.Filing.exists_rollOver`), and the
entry is the first of a new file (`Log.Filing.emit_puts_aside`).
-/

namespace JsonShape

namespace FileTree

variable {t : FileTree} {source target : List String}

theorem node?_remove_self {place : List String} (h : t.node? place ≠ some .directory) :
    (t.remove place).node? place = none := by
  rw [node?, isGiven_eq_false h, if_neg Bool.false_ne_true, List.lookup_eq_none_iff, remove]
  intro e he
  rw [bne_comm]
  exact (List.mem_filter.1 he).2

/-- What is moved is gone from where it was. -/
theorem node?_move_source (hsource : t.node? source ≠ some .directory)
    (htarget : ¬target <+: source) : (t.move source target).node? source = none := by
  rw [node?, isGiven_eq_false hsource, if_neg Bool.false_ne_true, List.lookup_eq_none_iff]
  intro e he
  obtain ⟨e', -, rfl⟩ := List.mem_map.1 he
  rw [bne_iff_ne, moved]
  split_ifs with hbegins
  · rintro heq
    exact htarget (heq ▸ List.prefix_append _ _)
  · rintro rfl
    exact hbegins (List.isPrefixOf_iff_prefix.2 List.prefix_rfl)

/-- What is moved stands where it was moved to. -/
theorem node?_move_target (hsource : t.node? source ≠ some .directory)
    (htarget : t.node? target = none) :
    (t.move source target).node? target = t.node? source := by
  have hgiven : isGiven target = false := isGiven_eq_false (t := t) (by simp [htarget])
  rw [node?, hgiven, if_neg Bool.false_ne_true] at htarget
  rw [node?, node?, hgiven, isGiven_eq_false hsource, if_neg Bool.false_ne_true,
    if_neg Bool.false_ne_true, move]
  refine lookup_map_fst fun e he => ?_
  have hne : e.1 ≠ target := by
    rintro rfl
    exact absurd (List.lookup_eq_none_iff.1 htarget e he) (by simp)
  rw [moved]
  split_ifs with hbegins
  · obtain ⟨rest, hrest⟩ := List.isPrefixOf_iff_prefix.1 hbegins
    rw [← hrest]
    simp
  · constructor
    · exact fun heq => absurd heq hne
    · rintro rfl
      exact absurd (List.isPrefixOf_iff_prefix.2 List.prefix_rfl) hbegins

end FileTree

namespace Log

open FileTree

variable {base : List String} {t u : FileTree}

/-! ## Streams -/

/-- The sink with the number writes to a file. -/
def Desk.HasFile (d : Desk) (j : Nat) : Prop :=
  ∃ level base stream, d.sinks[j]? = some ⟨level, .file base stream⟩

namespace Desk

variable {d : Desk} {j : Nat} {change : Nat → Stream → Stream}

theorem hasFile_of_streamAt (h : d.streamAt j ≠ .closed) : d.HasFile j := by
  rw [streamAt] at h
  split at h
  · rename_i level base stream hsink
    exact ⟨level, base, stream, hsink⟩
  · exact absurd rfl h

theorem hasFile_mapStreams (h : d.HasFile j) : (d.mapStreams change).HasFile j := by
  obtain ⟨level, base, stream, hsink⟩ := h
  exact ⟨level, base, change j stream, by rw [mapStreams, List.getElem?_mapIdx, hsink]; rfl⟩

theorem streamAt_mapStreams (h : d.HasFile j) :
    (d.mapStreams change).streamAt j = change j (d.streamAt j) := by
  obtain ⟨level, base, stream, hsink⟩ := h
  simp only [streamAt, mapStreams, List.getElem?_mapIdx, hsink, Option.map_some]

end Desk

/-! ## Names -/

/-- None of the names is below another. -/
def Apart (names : List (List String)) : Prop :=
  names.Pairwise fun x y => ¬x <+: y ∧ ¬y <+: x

theorem length_of_mem_fileNames (hbase : base ≠ []) {name : List String}
    (h : name ∈ fileNames base) : name.length = base.length := by
  rcases List.mem_cons.1 h with rfl | h
  · rfl
  · obtain ⟨i, -, rfl⟩ := List.mem_map.1 h
    have hlength := List.length_pos_iff.2 hbase
    rw [backupPlace, List.length_append, List.length_dropLast, List.length_singleton]
    omega

theorem nodup_fileNames (hbase : base ≠ []) : (fileNames base).Nodup := by
  have hlast : base.dropLast ++ [base.getLast?.getD ""] = base := by
    rw [List.getLast?_eq_some_getLast hbase, Option.getD_some, List.dropLast_append_getLast]
  rw [fileNames, List.nodup_cons]
  constructor
  · intro hmem
    obtain ⟨i, -, hi⟩ := List.mem_map.1 hmem
    rw [backupPlace] at hi
    have hsame := List.singleton_inj.1 (List.append_cancel_left (hi.trans hlast.symm))
    have hlength := congrArg String.length hsame
    rw [String.length_append, String.length_append] at hlength
    have hdot : ".".length = 1 := by decide
    omega
  · have hnumbers : (List.range backupCount).Pairwise fun i j =>
        toString (i + 1) ≠ toString (j + 1) := by decide
    refine List.pairwise_map.2 (hnumbers.imp fun hne heq => hne ?_)
    rw [backupPlace, backupPlace] at heq
    simpa using heq

theorem ne_of_mem_tail_fileNames (hbase : base ≠ []) {name : List String}
    (h : name ∈ (fileNames base).tail) : name ≠ base := by
  rintro rfl
  exact (List.nodup_cons.1 (nodup_fileNames hbase)).1 h

theorem getElem?_fileNames {number : Nat} (h : number < backupCount) :
    (fileNames base)[number + 1]? = some (backupPlace base (number + 1)) := by
  rw [fileNames, List.getElem?_cons_succ, List.getElem?_map, List.getElem?_range h, Option.map_some]

theorem mem_zip_fileNames {number : Nat} {name : List String}
    (hname : (fileNames base)[number]? = some name) (hnumber : number < backupCount) :
    (name, backupPlace base (number + 1)) ∈ (fileNames base).zip (fileNames base).tail := by
  refine List.mem_of_getElem? (i := number) (List.getElem?_zip_eq_some.2 ⟨hname, ?_⟩)
  rw [List.getElem?_tail, getElem?_fileNames hnumber]

/-- Names of one length are apart if they differ. -/
theorem apart_fileNames (hbase : base ≠ []) : Apart (fileNames base) := by
  refine (nodup_fileNames hbase).imp_of_mem fun {x y} hx hy hne => ?_
  have hlength : x.length = y.length :=
    (length_of_mem_fileNames hbase hx).trans (length_of_mem_fileNames hbase hy).symm
  exact ⟨fun h => hne (h.eq_of_length hlength), fun h => hne (h.eq_of_length hlength.symm).symm⟩

/-! ## Moves -/

/-- Every file has moved on to the next name, and the first name is free. -/
structure Shifted (names : List (List String)) (t u : FileTree) : Prop where
  next : ∀ pair ∈ names.zip names.tail, ∀ n, t.node? pair.1 = some n → u.node? pair.2 = some n
  first : ∀ {name rest}, names = name :: rest →
    u.node? name ≠ some .directory ∧ (rest ≠ [] → u.node? name = none)
  other : ∀ place, (∀ name ∈ names, ¬name <+: place) → u.node? place = t.node? place

namespace Filing

variable {f : Filing} {j : Nat} {source target : List String}

theorem node?_replace (hst : ¬source <+: target) (hts : ¬target <+: source)
    (hsource : f.files.node? source ≠ some .directory)
    (htarget : f.files.node? target ≠ some .directory) :
    ∃ f', f.replace source target = .ok f' ∧ f'.files.node? source = none ∧
      (∀ n, f.files.node? source = some n → f'.files.node? target = some n) ∧
      (∀ place, ¬source <+: place → ¬target <+: place →
        f'.files.node? place = f.files.node? place) ∧
      (f.desk.HasFile j → f'.desk.HasFile j) := by
  have hne : source ≠ target := fun h => hst (h ▸ List.prefix_rfl)
  rw [replace]
  split
  · rename_i hnone
    exact ⟨f, rfl, hnone, fun n hn => (by cases hnone.symm.trans hn), fun _ _ _ => rfl, id⟩
  · rename_i hnone
    exact ⟨_, rfl, node?_move_source hsource hts,
      fun n hn => (node?_move_target hsource hnone).trans hn,
      fun place hs ht => node?_move hs ht, Desk.hasFile_mapStreams⟩
  · have hremoved : (f.files.remove target).node? source = f.files.node? source :=
      node?_remove_of_ne hne
    have hfree := node?_remove_self htarget
    refine ⟨_, rfl, node?_move_source (hremoved ▸ hsource) hts, fun n hn => ?_,
      fun place hs ht => ?_, fun h => Desk.hasFile_mapStreams (Desk.hasFile_mapStreams h)⟩
    · exact (node?_move_target (hremoved ▸ hsource) hfree).trans (hremoved.trans hn)
    · exact (node?_move hs ht).trans (node?_remove_of_ne fun h => ht (h ▸ List.prefix_rfl))
  · rename_i hdirectory
    exact absurd hdirectory htarget

theorem rollOver_append (f : Filing) (pairs more : List (List String × List String)) :
    f.rollOver (pairs ++ more) = f.rollOver pairs >>= fun f => f.rollOver more := by
  induction pairs generalizing f with
  | nil => rfl
  | cons pair pairs ih =>
    have hcons : ∀ rest, f.rollOver (pair :: rest) =
        f.replace pair.1 pair.2 >>= fun f => f.rollOver rest := fun _ => rfl
    rw [List.cons_append, hcons, hcons, bind_assoc]
    exact congrArg _ (funext ih)

/-- Moving names on, the last one first, moves every file on by one name. -/
theorem exists_rollOver {names : List (List String)} (hapart : Apart names)
    (hnodes : ∀ name ∈ names, f.files.node? name ≠ some .directory) :
    ∃ f', f.rollOver (names.zip names.tail).reverse = .ok f' ∧ Shifted names f.files f'.files ∧
      (f.desk.HasFile j → f'.desk.HasFile j) := by
  induction names with
  | nil => exact ⟨f, rfl, ⟨fun _ h => (by cases h), fun h => (by cases h), fun _ _ => rfl⟩, id⟩
  | cons name names ih =>
    cases names with
    | nil =>
      refine ⟨f, rfl, ⟨fun _ h => (by cases h), fun h => ?_, fun _ _ => rfl⟩, id⟩
      obtain ⟨rfl, rfl⟩ := List.cons.inj h
      exact ⟨hnodes _ List.mem_cons_self, absurd rfl⟩
    | cons next rest =>
      obtain ⟨hname, hrest⟩ := List.pairwise_cons.1 hapart
      obtain ⟨hnode, hnodes⟩ := List.forall_mem_cons.1 hnodes
      obtain ⟨f₁, hroll, hshifted, hfile₁⟩ := ih hrest hnodes
      -- The first name is not touched until the others have moved.
      have hsame : f₁.files.node? name = f.files.node? name :=
        hshifted.other name fun other hother => (hname other hother).2
      obtain ⟨f₂, hreplace, hfree, hmoved, hothers, hfile₂⟩ := node?_replace (j := j)
        (hname next List.mem_cons_self).1 (hname next List.mem_cons_self).2
        (hsame ▸ hnode) (hshifted.first rfl).1
      refine ⟨f₂, ?_, ⟨?_, ?_, ?_⟩, hfile₂ ∘ hfile₁⟩
      · have hpairs : ((name :: next :: rest).zip (name :: next :: rest).tail).reverse =
            ((next :: rest).zip (next :: rest).tail).reverse ++ [(name, next)] := by
          simp
        rw [hpairs, rollOver_append, hroll]
        change (f₁.replace name next >>= fun f => f.rollOver []) = _
        rw [hreplace]
        rfl
      · intro pair hpair n hn
        rcases List.mem_cons.1 hpair with rfl | hpair
        · exact hmoved n (hsame.trans hn)
        · have hlater : pair.2 ∈ rest := (List.of_mem_zip hpair).2
          have hnext := hshifted.next pair hpair n hn
          rwa [← hothers pair.2 (hname _ (List.mem_cons_of_mem _ hlater)).1
            ((List.pairwise_cons.1 hrest).1 _ hlater).1] at hnext
      · intro first others h
        obtain ⟨rfl, -⟩ := List.cons.inj h
        exact ⟨by simp [hfree], fun _ => hfree⟩
      · intro place hplace
        obtain ⟨hp, hplace⟩ := List.forall_mem_cons.1 hplace
        rw [hothers place hp (hplace next List.mem_cons_self)]
        exact hshifted.other place hplace

/-- A file that is not there is made and opened. -/
theorem reopen_of_none (hsink : f.desk.HasFile j)
    (habove : f.files.node? base.dropLast = some .directory) (hnone : f.files.node? base = none) :
    ∃ f', f.reopen j base = .ok f' ∧ f'.desk.streamAt j = .onFile base ∧
      f'.files = f.files.put base (.file []) := by
  refine ⟨{ f with files := f.files.put base (.file []) }.setStream j (.onFile base), ?_, ?_, rfl⟩
  · rw [reopen, habove, hnone]
  · rw [setStream, Desk.streamAt_mapStreams hsink, if_pos rfl]

theorem opened_of_stream (h : f.desk.streamAt j = .onFile base) : f.opened j base = .ok f := by
  rw [opened, h, if_neg (by simp)]

/-- A file that a line would bring to its limit is put aside, and a new one is opened. -/
theorem ready_puts_aside {content : List UInt8} {line : String}
    (hstream : f.desk.streamAt j = .onFile base)
    (hcontent : f.files.node? base = some (.file content))
    (habove : f.files.node? base.dropLast = some .directory) (hbase : base ≠ [])
    (hnodes : ∀ name ∈ fileNames base, f.files.node? name ≠ some .directory)
    (hlimit : sizeLimit ≤ content.length + line.length) :
    ∃ f' shifted, f.ready j base line = .ok f' ∧ f'.desk.streamAt j = .onFile base ∧
      Shifted (fileNames base) f.files shifted ∧ f'.files = shifted.put base (.file []) := by
  have hsink : f.desk.HasFile j := Desk.hasFile_of_streamAt (by simp [hstream])
  obtain ⟨f₁, hroll, hshifted, hsink₁⟩ :=
    exists_rollOver (f := f.setStream j .closed) (j := j) (apart_fileNames hbase) hnodes
  have hroll : (f.setStream j .closed).rollOver (shifts base) = .ok f₁ := hroll
  -- The directory of the file is above all its names.
  have habove₁ : f₁.files.node? base.dropLast = some .directory := by
    rw [hshifted.other _ fun name hname hbegins => ?_]
    · exact habove
    · have hlength := hbegins.length_le
      rw [length_of_mem_fileNames hbase hname, List.length_dropLast] at hlength
      have hpos := List.length_pos_iff.2 hbase
      omega
  have hnone : f₁.files.node? base = none := (hshifted.first rfl).2 (by simp [backupCount])
  obtain ⟨f₂, hreopen, hstream₂, hfiles₂⟩ :=
    reopen_of_none (hsink₁ (Desk.hasFile_mapStreams hsink)) habove₁ hnone
  refine ⟨f₂, f₁.files, ?_, hstream₂, hshifted, hfiles₂⟩
  have hsize : f.size (.onFile base) = content.length := by rw [size, hcontent]
  rw [ready, hcontent, if_neg (by simp), opened_of_stream hstream]
  change (if f.size (f.desk.streamAt j) + line.length < sizeLimit then _ else _) = _
  rw [hstream, hsize, if_neg (by omega)]
  change ((f.setStream j .closed).rollOver (shifts base) >>= fun f => f.reopen j base) = _
  rw [hroll]
  exact hreopen

/-- A line goes to the end of the file that is ready for it. -/
theorem emit_of_ready {f' : Filing} {old : List UInt8} {line : String}
    (hready : f.ready j base line = .ok f') (hstream : f'.desk.streamAt j = .onFile base)
    (hold : f'.files.node? base = some (.file old)) :
    f.emit j base line =
      .ok { f' with files := f'.files.put base (.file (old ++ Utf8.encode line)) } := by
  have hwritten : f'.append j line =
      { f' with files := f'.files.put base (.file (old ++ Utf8.encode line)) } := by
    simp only [append, hstream, FileTree.append, hold]
  rw [emit, hready, ← hwritten]
  change (f'.opened j base >>= fun f => .ok (f.append j line)) = _
  rw [opened_of_stream hstream]
  rfl

/-- A line that would bring a file to its limit is the first of a new file. The file is put aside
whole, and so is each one that was put aside before, up to the last number. -/
theorem emit_puts_aside {content : List UInt8} {line : String}
    (hstream : f.desk.streamAt j = .onFile base)
    (hcontent : f.files.node? base = some (.file content))
    (habove : f.files.node? base.dropLast = some .directory) (hbase : base ≠ [])
    (hnodes : ∀ name ∈ fileNames base, f.files.node? name ≠ some .directory)
    (hlimit : sizeLimit ≤ content.length + line.length) :
    ∃ f', f.emit j base line = .ok f' ∧ f'.desk.streamAt j = .onFile base ∧
      f'.files.node? base = some (.file (Utf8.encode line)) ∧
      f'.files.node? (backupPlace base 1) = some (.file content) ∧
      ∀ number, 0 < number → number < backupCount → ∀ n,
        f.files.node? (backupPlace base number) = some n →
        f'.files.node? (backupPlace base (number + 1)) = some n := by
  have hgiven : isGiven base = false := isGiven_eq_false (t := f.files) (by simp [hcontent])
  obtain ⟨f', shifted, hready, hstream', hshifted, hfiles⟩ :=
    ready_puts_aside hstream hcontent habove hbase hnodes hlimit
  have hempty : f'.files.node? base = some (.file []) := by rw [hfiles, node?_put_self hgiven]
  -- Writing to the new file does not touch the others.
  have hnext : ∀ number name n, (fileNames base)[number]? = some name → number < backupCount →
      f.files.node? name = some n →
      (f'.files.put base (.file ([] ++ Utf8.encode line))).node? (backupPlace base (number + 1)) =
        some n := by
    intro number name n hname hnumber hn
    have hpair := mem_zip_fileNames hname hnumber
    have hne := ne_of_mem_tail_fileNames hbase (List.of_mem_zip hpair).2
    rw [node?_put_of_ne hne, hfiles, node?_put_of_ne hne]
    exact hshifted.next _ hpair n hn
  refine ⟨_, emit_of_ready hready hstream' hempty, hstream', node?_put_self hgiven,
    hnext 0 base _ rfl (by decide) hcontent, fun number hpos hnumber n => ?_⟩
  obtain ⟨i, rfl⟩ := Nat.exists_eq_add_of_lt hpos
  exact hnext _ _ n (getElem?_fileNames (by omega)) hnumber

end Filing

end Log

end JsonShape
