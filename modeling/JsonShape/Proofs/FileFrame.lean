import JsonShape.Proofs.Files

/-!
# What work on files leaves alone

`FileTree.Spares written` relates two trees if the second one has come from the first by work on
files at the places in question only : other directories stay, and every file at another place has
the content it had, or is missing as it was. New directories may have come up. Work that stops half
way is no different, since what it leaves is a tree as well (`FileTree.after`).

Where a path leads is a matter of its components (`PathText.destination`), as long as it leads
anywhere; the tree only says whether it does. So it is known which place a file that is written
takes, and what can become of it there (`FileTree.writeWithParents_cases`).
-/

namespace JsonShape

namespace PathText

end PathText

namespace FileTree

open PathText

variable {t u v : FileTree} {written : List String → Prop}

/-- Only files at the places in question were written, or below them, and directories made. No other
directory is gone. -/
structure Spares (written : List String → Prop) (t u : FileTree) : Prop where
  disk : u.disk = t.disk
  directory : ∀ place, ¬written place → t.node? place = some .directory →
    u.node? place = some .directory
  file : ∀ place, ¬written place → ∀ content,
    u.node? place = some (.file content) ↔ t.node? place = some (.file content)

theorem Spares.refl (written : List String → Prop) (t : FileTree) : Spares written t t :=
  ⟨rfl, fun _ _ h => h, fun _ _ _ => Iff.rfl⟩

theorem Spares.trans (h : Spares written t u) (h' : Spares written u v) : Spares written t v where
  disk := h'.disk.trans h.disk
  directory := fun place hplace hnode => h'.directory place hplace (h.directory place hplace hnode)
  file := fun place hplace content =>
    (h'.file place hplace content).trans (h.file place hplace content)

theorem Spares.mono {more : List String → Prop} (h : Spares written t u)
    (hmore : ∀ place, written place → more place) : Spares more t u where
  disk := h.disk
  directory := fun place hplace => h.directory place (mt (hmore place) hplace)
  file := fun place hplace => h.file place (mt (hmore place) hplace)

/-- Trees that have the same at the other places. -/
theorem Spares.of_node? (hdisk : u.disk = t.disk)
    (h : ∀ place, ¬written place → u.node? place = t.node? place) : Spares written t u where
  disk := hdisk
  directory := fun place hplace hnode => (h place hplace).trans hnode
  file := fun place hplace content => by rw [h place hplace]

theorem isGiven_eq_false {place : List String} (h : t.node? place ≠ some .directory) :
    isGiven place = false := by
  cases hgiven : isGiven place with
  | false => rfl
  | true => exact absurd (by rw [node?, hgiven]; rfl) h

theorem spares_put {place : List String} (h : written place) (n : Node) :
    Spares written t (t.put place n) :=
  .of_node? rfl fun _ hother => node?_put_of_ne fun heq => hother (heq ▸ h)

theorem node?_remove_of_ne {place other : List String} (h : other ≠ place) :
    (t.remove place).node? other = t.node? other := by
  rw [node?, node?, remove, lookup_filter_of_ne h]

theorem spares_remove {place : List String} (h : written place) :
    Spares written t (t.remove place) :=
  .of_node? rfl fun _ hother => node?_remove_of_ne fun heq => hother (heq ▸ h)

/-- A place that is neither moved away nor moved to. -/
theorem moved_eq_iff {source target place other : List String} (hsource : ¬source <+: other)
    (htarget : ¬target <+: other) : moved source target place = other ↔ place = other := by
  rw [moved]
  split_ifs with hbegins
  · have hplace : source <+: place := List.isPrefixOf_iff_prefix.1 hbegins
    constructor
    · rintro rfl
      exact absurd (List.prefix_append _ _) htarget
    · rintro rfl
      exact absurd hplace hsource
  · exact Iff.rfl

theorem node?_move {source target other : List String} (hsource : ¬source <+: other)
    (htarget : ¬target <+: other) : (t.move source target).node? other = t.node? other := by
  have hlookup : (t.move source target).nodes.lookup other = t.nodes.lookup other :=
    lookup_map_fst fun _ _ => moved_eq_iff hsource htarget
  rw [node?, node?, hlookup]

theorem spares_move {source target : List String}
    (hsource : ∀ place, source <+: place → written place)
    (htarget : ∀ place, target <+: place → written place) :
    Spares written t (t.move source target) :=
  .of_node? rfl fun other hother =>
    node?_move (mt (hsource other) hother) (mt (htarget other) hother)

theorem spares_append {place : List String} (h : written place) (bytes : List UInt8) :
    Spares written t (t.append place bytes) := by
  rw [append]
  split
  · exact spares_put h _
  · exact Spares.refl _ _

/-- The tree that work leaves, whether it was done or stopped. -/
def after : Except Unfinished FileTree → FileTree
  | .ok t => t
  | .error stopped => stopped.left

/-- Besides the files in question only the one at a place was written, which has this content unless
it is in question itself. -/
structure Leaves (written : List String → Prop) (place : List String) (content : List UInt8)
    (t u : FileTree) : Prop where
  spares : Spares (fun other => written other ∨ other = place) t u
  holds : ¬written place → u.node? place = some (.file content)

theorem Leaves.trans_spares {place : List String} {content : List UInt8}
    (h : Leaves written place content t u) (h' : Spares written u v) :
    Leaves written place content t v where
  spares := h.spares.trans (h'.mono fun _ => Or.inl)
  holds := fun hplace => (h'.file place hplace content).2 (h.holds hplace)

end FileTree

end JsonShape
