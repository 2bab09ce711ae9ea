import Mathlib.Tactic.MkIffOfInductiveProp
import ScriptKit.Proofs.Build.Effect
import ScriptKit.Proofs.FileTree.Lookup

/-!
Outputs in one directory right below the root. They can be stored, in any order, as long as no file
stands in the place of the directory and no directory in the place of an output.
-/
namespace ScriptKit

theorem Workspace.Stores.unique {before after after' : Workspace}
    (one : before.Stores path text after) (two : before.Stores path text after') : after = after' :=
  Except.ok.inj (one.written.symm.trans two.written)

namespace Build

/-- The path of an output with a name in a box, a directory right below the root. -/
@[mk_iff]
structure Slot (box name output : String) : Prop where
  rooted : Path.isAbsolute output = true
  rootedBox : Path.isAbsolute ("/" ++ box) = true
  inside : Path.directory output = "/" ++ box
  sound : FileTree.hasNull output = false
  soundBox : FileTree.hasNull ("/" ++ box) = false
  parts : FileTree.pathParts output = ["", box, name]
  partsBox : FileTree.pathParts ("/" ++ box) = ["", box]
  split : FileTree.splitPath ("/" ++ box) = ("/", box)
  short : name.utf8ByteSize ≤ nameLimit
  shortBox : box.utf8ByteSize ≤ nameLimit
  named : FileTree.Names name
  namedBox : FileTree.Names box

instance (box name output : String) : Decidable (Slot box name output) :=
  decidable_of_iff _ (slot_iff box name output).symm

namespace Slot

theorem location (slot : Slot box name output) (workspace : Workspace) :
    workspace.location output = [box, name] := by
  have rooted : workspace.rooted output = output := if_pos (.inr slot.rooted)
  rw [Workspace.location, rooted, FileTree.location, slot.parts]
  exact FileTree.follow_names [] (List.forall_mem_cons.mpr
    ⟨slot.namedBox, List.forall_mem_singleton.mpr slot.named⟩)

theorem walk {tree : FileTree} (slot : Slot box name output)
    (found : tree.get? [box] = some .directory) : tree.walk [] ["", box] = .ok [box] := by
  have arrives : [box] = FileTree.advance [] box := by
    obtain ⟨nonempty, notDot, notUp⟩ := slot.namedBox
    simp [FileTree.advance, nonempty, notDot, notUp]
  rw [FileTree.walk_blank, FileTree.walk_cons]
  exact bind_eq_ok.mpr ⟨[box], FileTree.step_eq_ok.mpr
    ⟨tree.get?_root, arrives, fun _ => ⟨slot.shortBox, _, found⟩⟩, rfl⟩

theorem usableBox (slot : Slot box name output) : FileTree.Usable ("/" ++ box) := by
  have short := slot.shortBox
  refine FileTree.usable_of_parts (by simp) ?_
  rw [slot.partsBox]
  simp only [nameLimit, pathLimit, List.map_cons, List.map_nil, List.sum_cons, List.sum_nil,
    String.utf8ByteSize_empty] at short ⊢
  omega

theorem usable (slot : Slot box name output) : FileTree.Usable output := by
  have short := slot.short
  have shortBox := slot.shortBox
  refine FileTree.usable_of_parts ?_ ?_
  · rintro rfl
    cases slot.rooted
  · rw [slot.parts]
    simp only [nameLimit, pathLimit, List.map_cons, List.map_nil, List.sum_cons, List.sum_nil,
      String.utf8ByteSize_empty] at short shortBox ⊢
    omega

theorem destinationBox (slot : Slot box name output) (tree : FileTree) :
    tree.destination ("/" ++ box) = .ok (some ⟨[], box, false⟩) := by
  unfold FileTree.destination
  rw [FileTree.checkPath_usable slot.usableBox, slot.partsBox]
  simp [slot.namedBox.1, FileTree.walk_blank, FileTree.walk, bind, Except.bind,
    FileTree.isDirectoryAt, Entry.isDirectory, pure, Except.pure]

theorem destination {tree : FileTree} (slot : Slot box name output)
    (found : tree.get? [box] = some .directory) :
    tree.destination output = .ok (some ⟨[box], name, false⟩) := by
  unfold FileTree.destination
  rw [FileTree.checkPath_usable slot.usable, slot.parts]
  simp [slot.named.1, slot.walk found, bind, Except.bind, FileTree.isDirectoryAt, found,
    Entry.isDirectory, pure, Except.pure]

/-- With the root above it, the box is made as a last directory. -/
theorem makeDirectories (slot : Slot box name output) (tree : FileTree) :
    tree.makeDirectories ("/" ++ box) = tree.makeLastDirectory ("/" ++ box) := by
  have root : tree.locate "/" = .ok ([], .directory) :=
    FileTree.locate_eq_ok.mpr ⟨by decide, rfl, rfl⟩
  have above : tree.contains "/" = true := by
    rw [FileTree.contains, FileTree.entryAt?, if_neg (by decide), root]
    rfl
  rw [FileTree.makeDirectories, slot.split]
  simp [above]

end Slot

/-- Nothing is in the way of outputs in the box. -/
structure Free (box : String) (tree : FileTree) : Prop where
  above : tree.get? [box] = none ∨ tree.get? [box] = some .directory
  outputs : ∀ name, tree.get? [box, name] ≠ some .directory

namespace Free

/-- The box is made, or was there before. -/
theorem makes {tree : FileTree} (free : Free box tree) (slot : Slot box name output) :
    ∃ after, tree.makeDirectories ("/" ++ box) = (.ok (), after) ∧
      after.get? [box] = some .directory ∧
      ∀ place, place ≠ [box] → after.get? place = tree.get? place := by
  obtain ⟨_, notDot, notUp⟩ := slot.namedBox
  rw [slot.makeDirectories, FileTree.makeLastDirectory, FileTree.ensureDirectory, slot.soundBox,
    FileTree.makeDirectoryAt, slot.destinationBox]
  rcases free.above with absent | found
  · refine ⟨tree.insert [box] .directory, ?_, ?_, ?_⟩
    · simp [bind, Except.bind, notDot, notUp, Nat.not_lt.mpr slot.shortBox, absent, pure, Except.pure]
    · rw [FileTree.get?_insert (by simp), if_pos rfl]
    · intro place other
      rw [FileTree.get?_insert (by simp), if_neg other]
  · have located : tree.locate ("/" ++ box) = .ok ([box], .directory) :=
      FileTree.locate_eq_ok.mpr ⟨slot.usableBox, slot.partsBox ▸ slot.walk found, found⟩
    have directory : tree.hasDirectory ("/" ++ box) = true := by
      rw [FileTree.hasDirectory, FileTree.entryAt?, if_neg (by simp [slot.soundBox]), located]
      rfl
    refine ⟨tree, ?_, found, fun _ _ => rfl⟩
    simp [bind, Except.bind, notDot, notUp, Nat.not_lt.mpr slot.shortBox, found, throw, throwThe,
      MonadExceptOf.throw, directory]

/-- An output can be stored. Afterwards there is still nothing in the way of others, and right below
the root nothing else has changed. -/
theorem stores {before : Workspace} (free : Free box before.files) (slot : Slot box name output)
    (code : String) :
    ∃ after, before.Stores output code after ∧ Free box after.files ∧
      ∀ other, other ≠ box → after.files.get? [other] = before.files.get? [other] := by
  obtain ⟨_, notDot, notUp⟩ := slot.named
  obtain ⟨tree, made, found, same⟩ := free.makes slot
  have rooted : before.rooted output = output := if_pos (.inr slot.rooted)
  have rootedBox : before.rooted ("/" ++ box) = "/" ++ box := if_pos (.inr slot.rootedBox)
  have unnamed : tree.isDirectoryAt [box, name] = false := by
    refine Bool.eq_false_iff.mpr fun directory => free.outputs name ?_
    rw [← same _ (by simp)]
    exact FileTree.isDirectoryAt_iff.mp directory
  have written : tree.write output code.toUTF8 =
      .ok (tree.insert [box, name] (.file code.toUTF8)) := by
    rw [FileTree.write, slot.sound, FileTree.writeAt, slot.destination found]
    simp [bind, Except.bind, notDot, notUp, Nat.not_lt.mpr slot.short, unnamed, pure, Except.pure]
  refine ⟨{ before with files := tree.insert [box, name] (.file code.toUTF8) }, ⟨?_, ?_⟩,
    ⟨.inr ?_, ?_⟩, ?_⟩
  · rw [slot.inside, Workspace.makeDirectories, rootedBox, made]
  · rw [slot.inside, Workspace.makeDirectories, rootedBox, made]
    unfold Workspace.write
    rw [show Workspace.rooted { before with files := tree } output = output from rooted]
    dsimp only
    rw [written]
    rfl
  · rw [FileTree.get?_insert (by simp), if_neg (by simp), found]
  · intro other
    rw [FileTree.get?_insert (by simp)]
    split
    · simp
    · rw [same _ (by simp)]
      exact free.outputs other
  · intro other apart
    rw [FileTree.get?_insert (by simp), if_neg (by simp), same _ (by simpa using apart)]

end Free

theorem writeOutput_stores {before : BuildState} {after : Workspace}
    (stores : before.workspace.Stores output code after) :
    Yields (writeOutput output code) before (.ok ()) { before with workspace := after } := by
  have run := yields_run (writeOutput output code) before
  rcases writeOutput_cases run with ⟨workspace, stores', result, state⟩ | ⟨_, refuses, _⟩
  · rw [result, state, stores'.unique stores] at run
    exact run
  · exact (refuses.not_stores stores).elim

/-- Files in the root directory. -/
def flatProject (files : List (String × String)) : Workspace :=
  ⟨⟨files.map fun (name, text) => ([name], .file text.toUTF8)⟩, "/", "", ""⟩

theorem flat_free {files : List (String × String)} (apart : ∀ file ∈ files, file.1 ≠ box) :
    Free box (flatProject files).files := by
  have absent (place : Location) (other : ∀ file ∈ files, place ≠ [file.1]) (below : place ≠ []) :
      (flatProject files).files.get? place = none := by
    rw [FileTree.get?, if_neg below]
    refine List.lookup_eq_none_iff.mpr fun entry member => ?_
    obtain ⟨file, listed, rfl⟩ := List.mem_map.mp member
    simpa using other file listed
  refine ⟨.inl (absent [box] ?_ (by simp)), fun name found => ?_⟩
  · intro file member same
    exact apart file member (List.cons.inj same).1.symm
  · rw [absent [box, name] (by simp) (by simp)] at found
    cases found

end Build
end ScriptKit
