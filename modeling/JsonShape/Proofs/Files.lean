import JsonShape.Proofs.Lists
import JsonShape.World.FileTree
import Mathlib.Data.List.Basic

/-!
# Files that are there

A path and its plain form lead to the same place : single slashes and components `.` make no
difference to a walk that succeeds. So a file that can be read is also found at its plain path
(`FileTree.isPresent_plain`). What is written at a path is read there afterwards
(`FileTree.read_of_write`), because every place that the walk passes through is a directory and so
is not the place of the file.
-/

namespace JsonShape

namespace PathText

/-! ## Plain paths -/

/-- The part can stand between two slashes. -/
structure IsPart (p : String) : Prop where
  ne_empty : p ≠ ""
  no_slash : '/' ∉ p.toList

theorem not_mem_of_mem_splitOn {cs piece : List Char} (h : piece ∈ cs.splitOn '/') :
    '/' ∉ piece := by
  induction cs generalizing piece with
  | nil =>
    rw [List.splitOn_nil, List.mem_singleton] at h
    simp [h]
  | cons c cs ih =>
    rw [List.splitOn_cons_eq_if_modifyHead] at h
    obtain ⟨first, rest, hsplit⟩ := List.exists_cons_of_ne_nil (List.splitOn_ne_nil '/' cs)
    rw [hsplit] at h ih
    split_ifs at h with hc
    · rcases List.mem_cons.1 h with rfl | h
      · simp
      · exact ih h
    · rw [List.modifyHead_cons] at h
      rcases List.mem_cons.1 h with rfl | h
      · have hne : '/' ≠ c := fun heq => hc (by simp [← heq])
        exact List.not_mem_cons_of_ne_of_not_mem hne (ih List.mem_cons_self)
      · exact ih (List.mem_cons_of_mem _ h)

/-- The components of a path are parts, after a slash for a path from the root. -/
theorem components_eq_append (path : String) : ∃ lead parts, components path = lead ++ parts ∧
    (lead = [] ∨ lead = ["/"]) ∧ ∀ p ∈ parts, IsPart p := by
  refine ⟨_, _, rfl, by split <;> simp, fun p hp => ?_⟩
  obtain ⟨piece, hpiece, rfl⟩ := List.mem_map.1 hp
  obtain ⟨hmem, hne⟩ := List.mem_filter.1 hpiece
  exact ⟨by simpa using hne, by simpa using not_mem_of_mem_splitOn hmem⟩

/-- The text of parts with slashes between them. -/
theorem splitOn_intercalate {parts : List String} (h : ∀ p ∈ parts, IsPart p) :
    (((String.intercalate "/" parts).toList.splitOn '/').filter (!·.isEmpty)).map String.ofList =
      parts := by
  cases parts with
  | nil => rfl
  | cons p parts =>
    have hpieces : ((String.intercalate "/" (p :: parts)).toList.splitOn '/') =
        (p :: parts).map String.toList := by
      rw [String.toList_intercalate]
      refine List.splitOn_intercalate '/' (fun l hl => ?_) (by simp)
      obtain ⟨q, hq, rfl⟩ := List.mem_map.1 hl
      exact (h q hq).no_slash
    have hfilter : ((p :: parts).map String.toList).filter (!·.isEmpty) =
        (p :: parts).map String.toList := by
      refine List.filter_eq_self.2 fun l hl => ?_
      obtain ⟨q, hq, rfl⟩ := List.mem_map.1 hl
      simpa using (h q hq).ne_empty
    rw [hpieces, hfilter]
    simp [Function.comp_def]

theorem IsPart.exists_cons {p : String} (h : IsPart p) :
    ∃ c cs, p.toList = c :: cs ∧ c ≠ '/' := by
  have hne : p.toList ≠ [] := fun hnil => h.ne_empty (String.toList_eq_nil_iff.1 hnil)
  obtain ⟨c, cs, hp⟩ := List.exists_cons_of_ne_nil hne
  refine ⟨c, cs, hp, ?_⟩
  rintro rfl
  exact h.no_slash (hp ▸ List.mem_cons_self)

theorem head?_intercalate {p : String} (h : IsPart p) (parts : List String) :
    ∃ c, (String.intercalate "/" (p :: parts)).toList.head? = some c ∧ c ≠ '/' := by
  obtain ⟨c, cs, hp, hc⟩ := h.exists_cons
  exact ⟨c, by cases parts <;> simp [hp], hc⟩

theorem toList_intercalate_ne_nil {p : String} (h : IsPart p) (parts : List String) :
    (String.intercalate "/" (p :: parts)).toList ≠ [] := by
  obtain ⟨c, hc, -⟩ := head?_intercalate h parts
  intro hnil
  rw [hnil] at hc
  cases hc

theorem getLast?_intercalate {parts : List String} (h : ∀ p ∈ parts, IsPart p) :
    (String.intercalate "/" parts).toList.getLast? ≠ some '/' := by
  induction parts with
  | nil => simp
  | cons p parts ih =>
    obtain ⟨hp, hparts⟩ := List.forall_mem_cons.1 h
    cases parts with
    | nil =>
      intro hlast
      have hmem := List.mem_of_getLast? hlast
      exact hp.no_slash (by simpa using hmem)
    | cons q parts =>
      have hne := toList_intercalate_ne_nil (hparts q List.mem_cons_self) parts
      have happend : (String.intercalate "/" (p :: q :: parts)).toList =
          p.toList ++ ['/'] ++ (String.intercalate "/" (q :: parts)).toList := by
        simp
      rw [happend, List.getLast?_append_of_ne_nil _ hne]
      exact ih hparts

/-- What the plain form of a path is made of. -/
inductive PlainForm : List String → String → Prop
  | here : PlainForm [] "."
  | below {p : String} {parts : List String} (h : ∀ q ∈ p :: parts, IsPart q) :
    PlainForm (p :: parts) (String.intercalate "/" (p :: parts))
  | rooted {parts : List String} (h : ∀ q ∈ parts, IsPart q) :
    PlainForm ("/" :: parts) ("/" ++ String.intercalate "/" parts)

theorem plainForm_plain (path : String) : PlainForm (plainComponents path) (plain path) := by
  obtain ⟨lead, parts, hpath, hlead, hparts⟩ := components_eq_append path
  have hkept : ∀ p ∈ parts.filter (· != "."), IsPart p :=
    fun p hp => hparts p (List.mem_filter.1 hp).1
  have hplain : plainComponents path = lead ++ parts.filter (· != ".") := by
    rw [plainComponents, hpath, List.filter_append]
    rcases hlead with rfl | rfl <;> rfl
  rw [plain, hplain]
  generalize parts.filter (· != ".") = kept at hkept
  rcases hlead with rfl | rfl
  · cases kept with
    | nil => exact .here
    | cons p kept =>
      have hslash : p ≠ "/" := by
        rintro rfl
        exact (hkept _ List.mem_cons_self).no_slash (by decide)
      have hof : ofComponents (p :: kept) = String.intercalate "/" (p :: kept) := by
        unfold ofComponents
        split <;> simp_all
      rw [List.nil_append, hof]
      exact .below hkept
  · exact .rooted hkept

theorem PlainForm.components {parts : List String} {path : String} (h : PlainForm parts path)
    (hne : parts ≠ []) : PathText.components path = parts := by
  cases h with
  | here => exact absurd rfl hne
  | below h =>
    obtain ⟨c, hc, hslash⟩ := head?_intercalate (h _ List.mem_cons_self) _
    rw [PathText.components, splitOn_intercalate h, hc, if_neg (by simpa using hslash)]
    rfl
  | @rooted parts h =>
    have hsplit : ("/" ++ String.intercalate "/" parts).toList.splitOn '/' =
        [] :: (String.intercalate "/" parts).toList.splitOn '/' := by
      rw [String.toList_append]
      exact List.splitOn_append_cons_self_of_not_mem (List.not_mem_nil (a := '/')) _
    rw [PathText.components, hsplit, List.filter_cons_of_neg (by simp), splitOn_intercalate h,
      if_pos (by simp)]
    rfl

theorem PlainForm.endsInSlash {parts : List String} {path : String} (h : PlainForm parts path)
    (hend : PathText.endsInSlash path = true) : parts = ["/"] := by
  cases h with
  | here => cases hend
  | below h => exact absurd (by simpa [PathText.endsInSlash] using hend) (getLast?_intercalate h)
  | @rooted parts h =>
    cases parts with
    | nil => rfl
    | cons p parts =>
      have hne := toList_intercalate_ne_nil (h p List.mem_cons_self) parts
      rw [PathText.endsInSlash, String.toList_append, List.getLast?_append_of_ne_nil _ hne] at hend
      exact absurd (by simpa using hend) (getLast?_intercalate h)

end PathText

namespace FileTree

open PathText

variable {t : FileTree}

/-- Components that stand for the current directory do not matter to a walk that succeeds. -/
theorem walk_filter {place found parts : List String} (h : t.walk place parts = .ok found) :
    t.walk place (parts.filter (· != ".")) = .ok found := by
  induction parts generalizing place with
  | nil => exact h
  | cons part rest ih =>
    rw [walk] at h
    cases hnode : t.node? place with
    | none => simp [hnode] at h
    | some n =>
      cases n with
      | file content => simp [hnode] at h
      | directory =>
        simp only [hnode] at h
        by_cases hdot : part = "."
        · rw [List.filter_cons_of_neg (by simp [hdot])]
          rw [if_pos (by simp [hdot])] at h
          exact ih h
        · rw [List.filter_cons_of_pos (by simp [hdot]), walk, hnode]
          simp only [hdot, beq_iff_eq, if_false] at h ⊢
          split_ifs at h ⊢
          · exact ih h
          · exact ih h

/-- The plain form of a path leads where the path leads. -/
theorem resolve_plain {path : String} {place : List String} (h : t.resolve path = .ok place) :
    t.resolve (plain path) = .ok place := by
  rw [resolve] at h
  split_ifs at h
  have hwalk : t.walk [] (plainComponents path) = .ok place := walk_filter h
  have hform := plainForm_plain path
  generalize plain path = p at hform
  generalize plainComponents path = parts at hwalk hform
  by_cases hparts : parts = []
  · subst hparts
    cases hform
    exact hwalk
  · have hcomponents := hform.components hparts
    have hne : p ≠ "" := by
      rintro rfl
      exact hparts hcomponents.symm
    rw [resolve, if_neg (by simpa using hne), hcomponents]
    exact hwalk

theorem node?_root : t.node? ["/"] = some .directory := rfl

/-- What is found at a path is there at its plain path. -/
theorem isPresent_plain {path : String} {n : Node} (h : t.find path = .ok n) :
    t.isPresent (plain path) = true := by
  rw [find] at h
  cases hresolve : t.resolve path with
  | error fault => simp [hresolve] at h
  | ok place =>
    have hplain := resolve_plain hresolve
    rw [isPresent, find, hplain]
    cases hnode : t.node? place with
    | none => simp [hresolve, hnode] at h
    | some n =>
      cases n with
      | directory => simp only [hnode]
      | file content =>
        -- Only the root's plain form ends in a slash, and the root is no file.
        have hslash : ¬endsInSlash (plain path) = true := by
          intro hend
          have hroot := (plainForm_plain path).endsInSlash hend
          have hwalk : t.walk [] ["/"] = .ok place := by
            rw [resolve] at hresolve
            split_ifs at hresolve
            rw [← hroot]
            exact walk_filter hresolve
          obtain rfl : ["/"] = place := Except.ok.inj hwalk
          cases node?_root.symm.trans hnode
        simp only [hnode, if_neg hslash]

/-! ## Written files -/

theorem node?_put_of_ne {place other : List String} {n : Node} (h : other ≠ place) :
    (t.put place n).node? other = t.node? other := by
  have hlast : List.lookup other [(place, n)] = none := by
    simpa [List.lookup_eq_none_iff] using h
  rw [node?, node?, put, List.lookup_append, hlast, lookup_filter_of_ne h, Option.or_none]

theorem node?_put_self {place : List String} {n : Node} (h : isGiven place = false) :
    (t.put place n).node? place = some n := by
  have hnone : (t.nodes.filter fun e => e.1 != place).lookup place = none := by
    refine List.lookup_eq_none_iff.2 fun e he => ?_
    have hne : e.1 ≠ place := by simpa using (List.mem_filter.1 he).2
    simpa using hne.symm
  rw [node?, h, put, List.lookup_append, hnone]
  simp

/-- A walk passes through directories only, so a file put elsewhere does not change it. -/
theorem walk_put {start found place parts : List String} {n : Node}
    (h : t.walk start parts = .ok found) (hplace : t.node? place ≠ some .directory) :
    (t.put place n).walk start parts = .ok found := by
  induction parts generalizing start with
  | nil => exact h
  | cons part rest ih =>
    rw [walk] at h ⊢
    by_cases hdirectory : t.node? start = some .directory
    · have hne : start ≠ place := by
        rintro rfl
        exact hplace hdirectory
      rw [node?_put_of_ne hne, hdirectory]
      simp only [hdirectory] at h ⊢
      split_ifs at h ⊢
      · exact ih h
      · exact ih h
      · exact ih h
    · split at h
      · cases h
      · cases h
      · contradiction

/-- A file has its place where the path leads, and no directory stands there. -/
theorem resolve_of_filePlace {path : String} {place : List String}
    (h : t.filePlace path = .ok place) : t.resolve path = .ok place ∧
      t.node? place ≠ some .directory ∧ endsInSlash path = false := by
  rw [filePlace] at h
  cases hresolve : t.resolve path with
  | error fault => simp [hresolve] at h
  | ok found =>
    simp only [hresolve] at h
    split at h
    · cases h
    · rename_i hnode
      split_ifs at h with hslash
      obtain rfl := Except.ok.inj h
      exact ⟨rfl, hnode, by simpa using hslash⟩
    · cases h
    · cases h

/-- What comes of content for a file : it is put there whole, or the disk keeps the first of it. -/
theorem store_cases (t : FileTree) (place : List String) (content : List UInt8) :
    t.store place content = .ok (t.put place (.file content)) ∨
      ∃ short, t.disk t.nodes place content = some short ∧ t.store place content =
        .error ⟨short.failure, t.put place (.file (content.take short.kept))⟩ := by
  rw [store]
  cases hdisk : t.disk t.nodes place content with
  | none => exact Or.inl rfl
  | some short => exact Or.inr ⟨short, rfl, rfl⟩

/-- Writing puts the file at its place. -/
theorem eq_put_of_write {u : FileTree} {path : String} {content : List UInt8}
    (h : t.write path content = .ok u) :
    ∃ place, t.filePlace path = .ok place ∧ u = t.put place (.file content) := by
  rw [write] at h
  cases hplace : t.filePlace path with
  | error fault => simp [hplace] at h
  | ok place =>
    simp only [hplace] at h
    obtain hstore | ⟨short, -, hstore⟩ := t.store_cases place content
    · exact ⟨place, rfl, (Except.ok.inj (hstore.symm.trans h)).symm⟩
    · cases hstore.symm.trans h

theorem exists_write_of_writeWithParents {u : FileTree} {path : String} {content : List UInt8}
    (h : t.writeWithParents path content = .ok u) :
    ∃ made, t.makeParents path = .ok made ∧ made.write path content = .ok u := by
  rw [writeWithParents] at h
  split at h
  · cases h
  · rename_i made hmade
    exact ⟨made, hmade, h⟩

/-- A file that was written is read back. -/
theorem read_of_write {u : FileTree} {path : String} {content : List UInt8}
    (h : t.write path content = .ok u) : u.read path = .ok content := by
  obtain ⟨place, hplace, rfl⟩ := eq_put_of_write h
  obtain ⟨hresolve, hplace, hslash⟩ := resolve_of_filePlace hplace
  have hgiven : isGiven place = false := by
    cases hgiven : isGiven place with
    | false => rfl
    | true => exact absurd (by rw [node?, hgiven]; rfl) hplace
  have hput : (t.put place (.file content)).resolve path = .ok place := by
    rw [resolve] at hresolve ⊢
    split_ifs at hresolve ⊢
    exact walk_put hresolve hplace
  rw [read, find, hput]
  simp only [node?_put_self hgiven, hslash]
  rfl

end FileTree

end JsonShape
