import ScriptKit.Proofs.Build.Mirroring
import ScriptKit.Proofs.Build.Overlay

/-!
Building in place: the output directory is the project root, so that every output stands beside its
file. The way to an output goes from the root up to what it has in common with the way to the file,
and down from there; it passes nothing but directories that are there already.
-/
namespace ScriptKit
namespace FileTree

private theorem passing_append {tree : FileTree}
    (first : ∀ list, list <+: parts → tree.get? (follow place list) = some .directory)
    (second : ∀ list, list <+: more →
      tree.get? (follow (follow place parts) list) = some .directory) :
    ∀ list, list <+: parts ++ more → tree.get? (follow place list) = some .directory := by
  rintro list ⟨rest, same⟩
  rcases List.append_eq_append_iff.mp same with ⟨between, rfl, _⟩ | ⟨further, rfl, whole⟩
  · exact first list (List.prefix_append _ _)
  · rw [follow_append]
    exact second further (whole ▸ List.prefix_append _ _)

private theorem leading_name (named : Names name) : leading [name] = [name] := by
  simp [leading, named.1, named.2.1]

private theorem follow_ups (place : Location) (count : Nat) :
    follow place (List.replicate count "..") = place.take (place.length - count) := by
  induction count generalizing place with
  | zero => simp [follow]
  | succ count ih =>
    have up : advance place ".." = place.dropLast := rfl
    rw [List.replicate_succ, follow, List.foldl_cons, up, ← follow, ih,
      List.dropLast_eq_take, List.length_take, List.take_take]
    congr 1
    omega

end FileTree

namespace Path

/-- A way up and down from a directory. -/
def wayPath (base : String) (ups : Nat) (down : List (List Char)) : String :=
  join base (String.ofList (joinParts (List.replicate ups ['.', '.'] ++ down)))

section
variable {base : String} {root down : List (List Char)}

private theorem isAbsolute_way (named : ∀ part ∈ down, Name part) (nonempty : down ≠ [])
    (ups : Nat) :
    isAbsolute (String.ofList (joinParts (List.replicate ups ['.', '.'] ++ down))) = false := by
  rw [isAbsolute, String.toList_ofList]
  apply beq_eq_false_iff_ne.mpr
  cases ups with
  | zero => exact head?_joinParts named
  | succ ups =>
    have following : List.replicate ups ['.', '.'] ++ down ≠ [] := by simp [nonempty]
    rw [List.replicate_succ, List.cons_append, ← List.singleton_append,
      joinParts_append (List.cons_ne_nil _ _) following]
    simp [joinParts]

private theorem baseName_way (normal : Normal base slashes root)
    (named : ∀ part ∈ down ++ [name], Name part) (ups : Nat) :
    baseName (wayPath base ups (down ++ [name])) = String.ofList name := by
  obtain ⟨front, _, spelled⟩ := join_relative normal.isAbsolute
  have single := (named name (by simp)).single
  rw [baseName, wayPath, spelled _ (isAbsolute_way named (by simp) ups), baseChars_slash,
    String.toList_ofList, ← List.append_assoc, (cut_joinParts single _).1]

private theorem leading_way (normal : Normal base slashes root)
    (named : ∀ part ∈ down ++ [name], Name part) (ups : Nat) :
    FileTree.leading (FileTree.pathParts (directory (wayPath base ups (down ++ [name])))) =
      (root ++ (List.replicate ups ['.', '.'] ++ down)).map String.ofList := by
  have last := FileTree.names_ofList (named name (by simp))
  have whole := FileTree.leading_cut (wayPath base ups (down ++ [name]))
  rw [baseName_way normal named, FileTree.leading_name last, FileTree.leading_pathParts] at whole
  refine List.append_cancel_right (whole.symm.trans ?_)
  rw [wayPath, names_join normal.isAbsolute (isAbsolute_way named (by simp) ups), normal.names_eq,
    String.toList_ofList, names_joinParts_ups named (by simp)]
  simp

end
end Path

namespace Build

/-- Outputs go beside the files, and the directories down to the project root are there. -/
structure InPlace (settings : BuildSettings) (root : List (List Char)) (workspace : Workspace) :
    Prop where
  start : ∃ slashes, Path.Normal settings.projectRoot slashes root
  beside : settings.outDir = settings.projectRoot
  slashless : '/' ∉ settings.outputExtension.toList
  opened : ∀ front, front <+: root →
    workspace.files.get? (front.map String.ofList) = some .directory

namespace InPlace

variable {settings : BuildSettings} {root : List (List Char)} {workspace after : Workspace}

theorem grows (inPlace : InPlace settings root workspace) (grows : workspace.Grows changing after) :
    InPlace settings root after :=
  ⟨inPlace.start, inPlace.beside, inPlace.slashless,
    fun front within => grows.files.directory (inPlace.opened front within)⟩

/-- A file that is read has a name and stands in the tree. -/
theorem located (normal : Path.Normal path slashes list) (found : workspace.read path = .ok content) :
    workspace.files.locate path = .ok (FileTree.location path, .file content) ∧
      ∃ before name, list = before ++ [name] := by
  unfold Workspace.read Workspace.rooted at found
  rw [if_pos (.inr normal.isAbsolute)] at found
  have located := (FileTree.read_eq_ok.mp found).2
  refine ⟨located, ?_⟩
  rcases List.eq_nil_or_concat list with rfl | ⟨before, name, rfl⟩
  · have present := (FileTree.locate_eq_ok.mp located).2.2
    rw [FileTree.location_normal normal] at present
    cases present
  · exact ⟨before, name, List.concat_eq_append⟩

/-- The way from the root to an output goes beside the file. -/
theorem outputPath_way (inPlace : InPlace settings root workspace)
    (normal : Path.Normal path slashes (list ++ [name]))
    (found : workspace.files.get? (FileTree.location path) = some (.file content)) :
    ∃ common up down, root = common ++ up ∧ list = common ++ down ∧
      (∀ part ∈ down ++ [settings.mirroredName name], Path.Name part) ∧
      settings.outputPath path =
        Path.wayPath settings.projectRoot up.length (down ++ [settings.mirroredName name]) := by
  obtain ⟨slashes, start⟩ := inPlace.start
  obtain ⟨common, up, down, rootSame, same, relative⟩ := start.relative_split normal
  have below : down ≠ [] := by
    -- Otherwise the file would stand on the way to the root.
    rintro rfl
    have directory := inPlace.opened (list ++ [name]) (by rw [same, rootSame]; simp)
    rw [FileTree.location_normal normal, directory] at found
    cases found
  obtain ⟨before, last, rfl⟩ := List.eq_nil_or_concat down |>.resolve_left below
  rw [List.concat_eq_append, ← List.append_assoc] at same relative
  obtain ⟨rfl, lastSame⟩ := List.append_inj' same rfl
  obtain rfl : name = last := by simpa using lastSame
  have named := List.forall_mem_append.mp normal.named
  have last := named.2 name (by simp)
  refine ⟨common, up, before, rootSame, rfl, List.forall_mem_append.mpr
    ⟨(List.forall_mem_append.mp named.1).2, ?_⟩, ?_⟩
  · exact List.forall_mem_singleton.mpr (BuildSettings.mirroredName_named inPlace.slashless last)
  · rw [BuildSettings.outputPath_eq (relative (by simp)) last.single, inPlace.beside,
      List.append_assoc, Path.wayPath]

/-- What is passed on the way to the output of a file are directories. -/
theorem directory_of_passes (inPlace : InPlace settings root workspace)
    (normal : Path.Normal path slashes list) (found : workspace.read path = .ok content)
    (passes : workspace.Passes (settings.outputPath path) place) :
    workspace.files.get? place = some .directory := by
  obtain ⟨located, before, name, rfl⟩ := located normal found
  obtain ⟨common, up, down, rootSame, rfl, named, output⟩ :=
    inPlace.outputPath_way normal (FileTree.locate_eq_ok.mp located).2.2
  obtain ⟨_, start⟩ := inPlace.start
  have downNamed := (List.forall_mem_append.mp named).1
  have rootNamed := FileTree.names_map_ofList start.named
  have absolute : Path.isAbsolute (settings.outputPath path) = true :=
    output ▸ Path.isAbsolute_join start.isAbsolute _
  obtain ⟨steps, within, rfl⟩ := passes
  rw [Workspace.rooted, if_pos (.inr (Path.isAbsolute_directory absolute)), output,
    Path.leading_way start named, List.map_append, List.map_append, List.map_replicate] at within
  refine FileTree.passing_append ?_ (FileTree.passing_append ?_ ?_) steps within
  · intro list begins
    obtain ⟨front, begins', rfl⟩ := List.prefix_map_iff.mp begins
    rw [FileTree.follow_names [] fun part member => rootNamed part (begins.subset member)]
    exact inPlace.opened front begins'
  · intro list begins
    rw [(List.prefix_replicate_iff.mp begins).2, FileTree.follow_names [] rootNamed,
      FileTree.follow_ups, List.nil_append, ← List.map_take]
    exact inPlace.opened _ (List.take_prefix _ _)
  · intro list begins
    obtain ⟨front, begins', rfl⟩ := List.prefix_map_iff.mp begins
    rw [FileTree.follow_names [] rootNamed, FileTree.follow_ups, rootSame,
      FileTree.follow_names _ fun part member =>
        FileTree.names_map_ofList downNamed part (begins.subset member)]
    have above := FileTree.directory_above normal located
      ((List.prefix_append_right_inj common).mpr begins')
    simpa using above

/-- The name of an output is that of the file with another extension. -/
theorem location_output (inPlace : InPlace settings root workspace)
    (normal : Path.Normal path slashes list) (found : workspace.read path = .ok content) :
    ∃ front name, workspace.location (settings.outputPath path) =
      front ++ [String.ofList (settings.mirroredName name)] := by
  obtain ⟨located, before, name, rfl⟩ := located normal found
  obtain ⟨common, up, down, _, rfl, named, output⟩ :=
    inPlace.outputPath_way normal (FileTree.locate_eq_ok.mp located).2.2
  obtain ⟨_, start⟩ := inPlace.start
  have absolute : Path.isAbsolute (settings.outputPath path) = true :=
    output ▸ Path.isAbsolute_join start.isAbsolute _
  have last := FileTree.names_ofList (named (settings.mirroredName name) (by simp))
  rw [Workspace.location, Workspace.rooted, if_pos (.inr absolute), FileTree.location,
    ← FileTree.follow_leading, FileTree.leading_cut, FileTree.follow_append, output,
    Path.baseName_way start named, FileTree.leading_name last,
    FileTree.follow_names _ (List.forall_mem_singleton.mpr last)]
  exact ⟨_, name, rfl⟩

end InPlace
end Build
end ScriptKit
