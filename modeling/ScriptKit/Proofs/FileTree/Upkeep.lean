import ScriptKit.Proofs.FileTree.Listing

/-!
A tree stays as it can be on a disk. Files are written and directories are made only in directories that
are there, under names that entries can have, and what is removed goes with all that is below it. So
every tree that comes about in these ways is proper.
-/
namespace ScriptKit.FileTree

/-- A new entry gets a part of its path for a name, which neither a slash nor a null can be in. -/
theorem entryName_of_destination {tree : FileTree} {target : Destination}
    (found : tree.destination path = .ok (some target)) (sound : hasNull path = false)
    (notDot : target.name ≠ ".") (notUp : target.name ≠ "..")
    (short : target.name.utf8ByteSize ≤ nameLimit) : EntryName target.name := by
  obtain ⟨_, _, nonempty, before, rest, parts, _⟩ := destination_eq_some found
  have member : target.name ∈ pathParts path := by simp [parts]
  obtain ⟨part, listed, spelled⟩ := List.mem_map.mp member
  have chars : target.name.toList = part := by rw [← spelled, String.toList_ofList]
  refine ⟨⟨nonempty, notDot, notUp⟩, ?_, ?_, short⟩
  · simpa [chars] using Path.slash_not_mem_part listed
  · have clear : '\x00' ∉ path.toList := by simpa [hasNull] using sound
    simpa [hasNull, chars] using fun within => clear (Path.mem_of_mem_part listed _ within)

/-- What is not below the place of removal stays. -/
theorem get?_erase (apart : ¬ gone <+: place) (tree : FileTree) :
    (tree.erase gone).get? place = tree.get? place := by
  unfold get? erase
  congr 1
  induction tree.entries with
  | nil => rfl
  | cons item rest ih =>
    rw [List.filter_cons]
    split
    · rw [List.lookup_cons, List.lookup_cons, ih]
    · rename_i below
      have other : (place == item.1) = false := by
        refine beq_eq_false_iff_ne.mpr fun same => below ?_
        simpa [Bool.eq_false_iff, List.isPrefixOf_iff_prefix, ← same] using apart
      rw [List.lookup_cons, other, ih]

namespace Proper

variable {tree after : FileTree}

theorem empty : FileTree.empty.Proper :=
  ⟨List.nodup_nil, List.forall_mem_nil _, List.forall_mem_nil _⟩

/-- A new entry is put into a directory that is there, and no file takes the place of a directory. -/
theorem insert (proper : tree.Proper) (above : tree.get? place = some .directory)
    (named : EntryName name)
    (keeps : tree.get? (place ++ [name]) = some .directory → entry = .directory) :
    (tree.insert (place ++ [name]) entry).Proper := by
  have still {other : Location} (directory : tree.get? other = some .directory) :
      (tree.insert (place ++ [name]) entry).isDirectoryAt other = true := by
    rw [isDirectoryAt_iff, get?_insert (List.concat_ne_nil name place)]
    split
    · rename_i same
      rw [keeps (same ▸ directory)]
    · exact directory
  refine ⟨Table.nodup_put proper.distinct _ _, ?_, ?_⟩
  · intro item member
    rcases Table.mem_of_mem_put member with rfl | member
    · rw [List.dropLast_concat]
      exact still above
    · exact still (isDirectoryAt_iff.mp (proper.founded item member))
  · intro item member
    rcases Table.mem_of_mem_put member with rfl | member
    · intro part within
      rcases List.mem_append.mp within with within | within
      · exact proper.entryName above part within
      · exact List.mem_singleton.mp within ▸ named
    · exact proper.named item member

theorem erase (proper : tree.Proper) (gone : Location) : (tree.erase gone).Proper := by
  refine ⟨?_, ?_, ?_⟩
  · exact proper.distinct.sublist (List.filter_sublist.map _)
  · intro item member
    obtain ⟨member, apart⟩ := List.mem_filter.mp member
    have apart : ¬ gone <+: item.1 := by
      simpa [Bool.eq_false_iff, List.isPrefixOf_iff_prefix] using apart
    rw [isDirectoryAt, get?_erase fun below => apart (below.trans (List.dropLast_prefix _))]
    exact proper.founded item member
  · intro item member
    exact proper.named item (List.mem_of_mem_filter member)

theorem write (proper : tree.Proper) (written : tree.write path content = .ok after) :
    after.Proper := by
  obtain ⟨sound, written⟩ := writeAt_of_write written
  obtain ⟨target, found, _, notDot, notUp, short, free, rfl⟩ := writeAt_eq_ok written
  have named := entryName_of_destination found sound notDot notUp short
  exact proper.insert (destination_eq_some found).2.1 named fun taken => absurd taken free

theorem makeDirectories (proper : tree.Proper) (path : String) :
    (tree.makeDirectories path).2.Proper := by
  refine makeDirectories_keeps ?_ proper path
  intro before after path sound made proper
  obtain ⟨target, found, notDot, notUp, short, _, rfl⟩ := makeDirectoryAt_eq_ok made
  have named := entryName_of_destination found sound notDot notUp short
  exact proper.insert (destination_eq_some found).2.1 named fun _ => rfl

theorem remove (proper : tree.Proper) (removed : tree.remove path = .ok after) : after.Proper := by
  unfold FileTree.remove at removed
  split at removed
  · cases removed
  · split at removed
    · cases removed
      exact proper.erase _
    · cases removed

end Proper

/-- A tree that comes about by writing files, making directories and removing them again. -/
inductive Made : FileTree → Prop
  | empty : Made .empty
  | write (made : Made tree) (written : tree.write path content = .ok after) : Made after
  | makeDirectories (made : Made tree) (path : String) : Made (tree.makeDirectories path).2
  | remove (made : Made tree) (removed : tree.remove path = .ok after) : Made after

theorem Made.proper (made : Made tree) : tree.Proper := by
  induction made with
  | empty => exact .empty
  | write _ written ih => exact ih.write written
  | makeDirectories _ path ih => exact ih.makeDirectories path
  | remove _ removed ih => exact ih.remove removed

end ScriptKit.FileTree
