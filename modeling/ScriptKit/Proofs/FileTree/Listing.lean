import Mathlib.Data.List.Nodup
import ScriptKit.Proofs.FileTree.Making

/-!
What is listed of a directory. In a tree as it can be on a disk, the entries of a directory and the
directories at any depth below it are those that are found there, and none of them is listed twice.
-/
namespace ScriptKit.FileTree

/-- A name that an entry can have. -/
structure EntryName (name : String) : Prop where
  names : Names name
  single : name.toList.contains '/' = false
  sound : hasNull name = false
  short : name.utf8ByteSize ≤ nameLimit

instance (name : String) : Decidable (EntryName name) :=
  decidable_of_iff (Names name ∧ name.toList.contains '/' = false ∧ hasNull name = false ∧
      name.utf8ByteSize ≤ nameLimit)
    ⟨fun ⟨names, single, sound, short⟩ => ⟨names, single, sound, short⟩,
      fun ⟨names, single, sound, short⟩ => ⟨names, single, sound, short⟩⟩

theorem EntryName.toName (named : EntryName name) : Path.Name name.toList := by
  obtain ⟨⟨nonempty, notDot, notUp⟩, single, _, _⟩ := named
  refine ⟨?_, ?_, ?_, by simpa using single⟩
  · exact fun same => nonempty (String.toList_injective same)
  · exact fun same => notDot (String.toList_injective same)
  · exact beq_eq_false_iff_ne.mpr fun same => notUp (String.toList_injective same)

/-- A tree as it can be on a disk: there is one entry at a place, it stands in a directory, and the
names on the way to it are names of entries. -/
structure Proper (tree : FileTree) : Prop where
  distinct : (tree.entries.map Prod.fst).Nodup
  founded : ∀ entry ∈ tree.entries, tree.isDirectoryAt entry.1.dropLast = true
  named : ∀ entry ∈ tree.entries, ∀ name ∈ entry.1, EntryName name

instance (tree : FileTree) : Decidable tree.Proper :=
  decidable_of_iff ((tree.entries.map Prod.fst).Nodup ∧
      (∀ entry ∈ tree.entries, tree.isDirectoryAt entry.1.dropLast = true) ∧
      ∀ entry ∈ tree.entries, ∀ name ∈ entry.1, EntryName name)
    ⟨fun ⟨distinct, founded, named⟩ => ⟨distinct, founded, named⟩,
      fun ⟨distinct, founded, named⟩ => ⟨distinct, founded, named⟩⟩

private theorem lookup_of_mem {entries : List (Location × Entry)}
    (distinct : (entries.map Prod.fst).Nodup)
    (member : (place, entry) ∈ entries) : entries.lookup place = some entry := by
  induction entries with
  | nil => cases member
  | cons first rest ih =>
    rw [List.map_cons, List.nodup_cons] at distinct
    rcases List.mem_cons.mp member with rfl | member
    · exact List.lookup_cons_self
    · have other : (place == first.1) = false :=
        beq_eq_false_iff_ne.mpr fun same => distinct.1 (same ▸ List.mem_map_of_mem member)
      rw [List.lookup_cons, other]
      exact ih distinct.2 member

theorem mem_of_get? {tree : FileTree} (nonroot : place ≠ []) (found : tree.get? place = some entry) :
    (place, entry) ∈ tree.entries := by
  rw [get?, if_neg nonroot] at found
  obtain ⟨before, after, same, _⟩ := List.lookup_eq_some_iff.mp found
  rw [same]
  simp

namespace Proper

variable {tree : FileTree}

theorem mem_entries (proper : tree.Proper) (nonroot : place ≠ []) :
    (place, entry) ∈ tree.entries ↔ tree.get? place = some entry := by
  constructor
  · intro member
    rw [get?, if_neg nonroot]
    exact lookup_of_mem proper.distinct member
  · exact mem_of_get? nonroot

theorem standing (proper : tree.Proper) : tree.Founded := by
  intro place name entry found
  have above := proper.founded _ (mem_of_get? (List.concat_ne_nil name place) found)
  rwa [List.dropLast_concat, isDirectoryAt_iff] at above

theorem entryName (proper : tree.Proper) (found : tree.get? place = some entry) :
    ∀ name ∈ place, EntryName name := by
  intro name member
  exact proper.named _ (mem_of_get? (List.ne_nil_of_mem member) found) name member

end Proper

section
variable {top place way : Location} {entry : Entry}

private theorem childOf?_eq_some :
    childOf? top (place, entry) = some (name, found) ↔ place = top ++ [name] ∧ entry = found := by
  rw [childOf?]
  constructor
  · intro selected
    split at selected
    · rename_i rest
      split at selected
      · rename_i below
        cases selected
        have whole := List.prefix_iff_eq_append.mp (List.isPrefixOf_iff_prefix.mp below)
        rw [rest] at whole
        exact ⟨whole.symm, rfl⟩
      · cases selected
    · cases selected
  · rintro ⟨rfl, rfl⟩
    simp

private theorem wayDown?_eq_some :
    wayDown? top (place, entry) = some way ↔
      place = top ++ way ∧ way ≠ [] ∧ entry = .directory := by
  rw [wayDown?]
  constructor
  · intro selected
    split at selected
    · rename_i inside
      obtain ⟨directory, below, other⟩ := inside
      cases selected
      have whole := List.prefix_iff_eq_append.mp (List.isPrefixOf_iff_prefix.mp below)
      refine ⟨whole.symm, ?_, ?_⟩
      · intro empty
        rw [empty, List.append_nil] at whole
        exact other whole.symm
      · cases entry with
        | file content => cases directory
        | directory => rfl
    · cases selected
  · rintro ⟨rfl, nonempty, rfl⟩
    simp [Entry.isDirectory, nonempty]

end

namespace Proper

variable {tree : FileTree}

theorem mem_children (proper : tree.Proper) :
    (name, entry) ∈ tree.children top ↔ tree.get? (top ++ [name]) = some entry := by
  rw [← proper.mem_entries (List.concat_ne_nil name top), children, List.mem_filterMap]
  constructor
  · rintro ⟨_, member, selected⟩
    obtain ⟨same, rfl⟩ := childOf?_eq_some.mp selected
    exact same ▸ member
  · intro member
    exact ⟨_, member, childOf?_eq_some.mpr ⟨rfl, rfl⟩⟩

theorem nodup_children (proper : tree.Proper) (top : Location) :
    ((tree.children top).map Prod.fst).Nodup := by
  have distinct := List.pairwise_map.mp proper.distinct
  refine List.pairwise_map.mpr (distinct.filterMap _ ?_)
  intro one two apart first selected second selected' same
  have place := (childOf?_eq_some.mp selected).1
  have place' := (childOf?_eq_some.mp selected').1
  rw [same, ← place'] at place
  exact apart place

/-- The directories that are listed below a directory are those there, itself among them. -/
theorem mem_directoriesBelow (proper : tree.Proper) (directory : tree.get? top = some .directory) :
    way ∈ tree.directoriesBelow top ↔ tree.get? (top ++ way) = some .directory := by
  by_cases empty : way = []
  · subst empty
    simpa [directoriesBelow] using directory
  have nonroot : top ++ way ≠ [] := by simp [empty]
  rw [← proper.mem_entries nonroot, directoriesBelow, List.mem_cons, List.mem_filterMap]
  constructor
  · rintro (rfl | ⟨_, member, selected⟩)
    · exact absurd rfl empty
    · obtain ⟨same, _, isDirectory⟩ := wayDown?_eq_some.mp selected
      exact same ▸ isDirectory ▸ member
  · intro member
    exact .inr ⟨_, member, wayDown?_eq_some.mpr ⟨rfl, empty, rfl⟩⟩

theorem nodup_directoriesBelow (proper : tree.Proper) (top : Location) :
    (tree.directoriesBelow top).Nodup := by
  rw [directoriesBelow, List.nodup_cons]
  constructor
  · intro member
    obtain ⟨_, _, selected⟩ := List.mem_filterMap.mp member
    exact (wayDown?_eq_some.mp selected).2.1 rfl
  · refine (List.pairwise_map.mp proper.distinct).filterMap _ ?_
    intro one two apart first selected second selected' same
    have place := (wayDown?_eq_some.mp selected).1
    have place' := (wayDown?_eq_some.mp selected').1
    rw [same, ← place'] at place
    exact apart place

end Proper

end ScriptKit.FileTree
