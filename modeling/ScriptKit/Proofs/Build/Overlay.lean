import ScriptKit.Proofs.Build.Inlining
import ScriptKit.Proofs.Build.Session
import ScriptKit.Proofs.Build.Storing
import ScriptKit.Proofs.FileTree.Making

/-!
Files as outputs lie over them. Storing an output puts a file in its place and directories in the
places above it, and leaves everything else as it was. So the files after any number of outputs are
known from the files at the start and from the outputs that were stored, in whatever order, and an
output that was stored in one order can be stored in any other.
-/
namespace ScriptKit

theorem FileTree.makeDirectories_empty (tree : FileTree) :
    tree.makeDirectories "" = (.error (.failed .notFound ""), tree) := by
  have located : tree.locate "" = .error .notFound := rfl
  rw [makeDirectories, if_pos (.inl rfl), makeLastDirectory, ensureDirectory, hasDirectory, entryAt?,
    located]
  rfl

namespace Workspace

variable {workspace : Workspace}

private theorem rooted_ne (rooted : Path.isAbsolute workspace.directory = true)
    (nonempty : path ≠ "") :
    workspace.rooted path ≠ "" := by
  unfold Workspace.rooted
  split
  · exact nonempty
  · intro empty
    have absolute := Path.isAbsolute_join rooted path
    rw [empty] at absolute
    cases absolute

/-- A path under a directory that is not empty is seen like the directory. -/
theorem rooted_cut (rooted : Path.isAbsolute workspace.directory = true)
    (housed : Path.directory path ≠ "") :
    (workspace.rooted (Path.directory path)).toList <+: (workspace.rooted path).toList ∧
      Path.baseName (workspace.rooted path) = Path.baseName path ∧
      FileTree.leading (FileTree.pathParts (workspace.rooted path)) =
        FileTree.leading (FileTree.pathParts (workspace.rooted (Path.directory path))) ++
          FileTree.leading [Path.baseName path] := by
  have within := Path.directory_prefix path
  by_cases absolute : Path.isAbsolute path = true
  · have above := Path.isAbsolute_directory absolute
    have whole : workspace.rooted path = path := if_pos (.inr absolute)
    have front : workspace.rooted (Path.directory path) = Path.directory path := if_pos (.inr above)
    rw [whole, front]
    exact ⟨within, rfl, FileTree.leading_cut path⟩
  · rw [Bool.not_eq_true] at absolute
    have nonempty : path ≠ "" := by
      rintro rfl
      exact housed rfl
    have relative : Path.isAbsolute (Path.directory path) = false := by
      cases first : (Path.directory path).toList with
      | nil => exact absurd (String.toList_eq_nil_iff.mp first) housed
      | cons char others =>
        obtain ⟨rest, spelled⟩ := within
        unfold Path.isAbsolute at absolute ⊢
        rw [← spelled, first] at absolute
        rw [first]
        exact absolute
    have whole : workspace.rooted path = Path.join workspace.directory path :=
      if_neg (by simp [nonempty, absolute])
    have above : workspace.rooted (Path.directory path) =
        Path.join workspace.directory (Path.directory path) := if_neg (by simp [housed, relative])
    rw [whole, above]
    obtain ⟨front, _, joined⟩ := Path.join_relative rooted
    refine ⟨?_, ?_, ?_⟩
    · rw [joined _ relative, joined path absolute, List.prefix_append_right_inj]
      exact List.cons_prefix_cons.mpr ⟨rfl, within⟩
    · rw [Path.baseName, Path.baseName, joined path absolute, Path.baseChars_slash]
    · rw [FileTree.leading_pathParts, FileTree.leading_pathParts, Path.names_join rooted absolute,
        Path.names_join rooted relative, List.map_append, List.map_append,
        ← FileTree.leading_pathParts path, ← FileTree.leading_pathParts (Path.directory path),
        FileTree.leading_cut path, List.append_assoc]

/-- The places of the directories above a file. -/
def Passes (workspace : Workspace) (path : String) (place : Location) : Prop :=
  FileTree.Passes (workspace.rooted (Path.directory path)) place

private theorem makeDirectories_empty (workspace : Workspace) :
    workspace.makeDirectories "" = (.error (.failed .notFound ""), workspace) := by
  have rooted : workspace.rooted "" = "" := if_pos (.inl rfl)
  rw [makeDirectories, rooted, FileTree.makeDirectories_empty]

namespace Stores

variable {before after now : Workspace}

theorem housed (stores : before.Stores path text after) : Path.directory path ≠ "" := by
  intro none
  have made := stores.made
  rw [none, makeDirectories_empty] at made
  cases made

/-- A stored path, with the parts of its path before the last and the files once the directories
above it were made. -/
structure Placed (before : Workspace) (path text : String) (after : Workspace)
    (front : List String) (middle : FileTree) : Prop where
  cut : FileTree.pathParts (before.rooted path) =
    front ++ [Path.baseName (before.rooted path)]
  above : FileTree.leading front =
    FileTree.leading (FileTree.pathParts (before.rooted (Path.directory path)))
  made : before.files.makeDirectories (before.rooted (Path.directory path)) = (.ok (), middle)
  fits : FileTree.Fits (before.rooted path)
  walked : middle.walk [] front = .ok (FileTree.follow [] front)
  directory : middle.get? (FileTree.follow [] front) = some .directory
  free : middle.get? (before.location path) ≠ some .directory
  files : after.files = middle.insert (before.location path) (.file text.toUTF8)

theorem placed (stores : before.Stores path text after)
    (rooted : Path.isAbsolute before.directory = true) :
    ∃ front middle, Placed before path text after front middle := by
  obtain ⟨_, base, leading⟩ := rooted_cut rooted stores.housed
  obtain ⟨front, cut, above⟩ := FileTree.pathParts_cut (before.rooted path)
  rw [FileTree.leading_cut, base] at leading
  rcases made : before.files.makeDirectories (before.rooted (Path.directory path)) with
    ⟨outcome, middle⟩
  have done : before.makeDirectories (Path.directory path) =
      (outcome, { before with files := middle }) := by rw [makeDirectories, made]
  have ok := stores.made
  have written := stores.written
  rw [done] at ok written
  obtain ⟨files, stored, same⟩ := bind_eq_ok.mp written
  cases same
  cases ok
  obtain ⟨fits, walked, directory, free, rfl⟩ := (FileTree.write_iff cut).mp stored
  exact ⟨front, middle, cut, above.trans (List.append_cancel_right leading), made, fits, walked,
    directory, free, rfl⟩

theorem get?_location (stores : before.Stores path text after) :
    after.files.get? (before.location path) = some (.file text.toUTF8) := by
  obtain ⟨null, located⟩ := FileTree.read_eq_ok.mp stores.read
  have found := (FileTree.locate_eq_ok.mp located).2.2
  rw [stores.grows.rooted path] at found
  exact found

theorem get?_passed (stores : before.Stores path text after)
    (rooted : Path.isAbsolute before.directory = true) (passes : before.Passes path place) :
    after.files.get? place = some .directory := by
  obtain ⟨front, middle, placed⟩ := stores.placed rooted
  obtain ⟨list, within, rfl⟩ := passes
  rw [← placed.above] at within
  have found : middle.get? (FileTree.follow [] list) = some .directory := by
    by_cases whole : list = FileTree.leading front
    · rw [whole, FileTree.follow_leading]
      exact placed.directory
    · exact FileTree.passing_of_walk placed.walked within whole
  have nonroot : before.location path ≠ [] := by
    intro root
    have free := placed.free
    rw [root] at free
    exact free middle.get?_root
  rw [placed.files, FileTree.get?_insert nonroot]
  split
  · rename_i same
    rw [same] at found
    exact absurd found placed.free
  · exact found

theorem get?_aside (stores : before.Stores path text after)
    (rooted : Path.isAbsolute before.directory = true) (other : place ≠ before.location path)
    (aside : ¬ before.Passes path place) :
    after.files.get? place = before.files.get? place := by
  obtain ⟨front, middle, placed⟩ := stores.placed rooted
  have nonroot : before.location path ≠ [] := by
    intro root
    have free := placed.free
    rw [root] at free
    exact free middle.get?_root
  have kept : (before.files.makeDirectories (before.rooted (Path.directory path))).2.get? place =
      before.files.get? place := FileTree.makeDirectories_get? aside
  rw [placed.made] at kept
  rw [placed.files, FileTree.get?_insert nonroot, if_neg other]
  exact kept

/-- An output that was stored once can be stored wherever nothing is in its way. -/
theorem again (stores : before.Stores path text after)
    (rooted : Path.isAbsolute before.directory = true) (directory : now.directory = before.directory)
    (passing : ∀ place, before.Passes path place →
      now.files.get? place = none ∨ now.files.get? place = some .directory)
    (free : now.files.get? (before.location path) ≠ some .directory) (text' : String) :
    ∃ after', now.Stores path text' after' := by
  obtain ⟨front, middle, placed⟩ := stores.placed rooted
  have same (path : String) : now.rooted path = before.rooted path := by
    unfold Workspace.rooted
    rw [directory]
  have aside : ¬ before.Passes path (before.location path) := by
    intro passes
    have file := stores.get?_location
    rw [stores.get?_passed rooted passes] at file
    cases file
  have passable : FileTree.Passable now.files (before.rooted (Path.directory path)) := by
    refine ⟨?_, ?_, ?_, passing⟩
    · have within := (rooted_cut rooted stores.housed).1
      exact ⟨rooted_ne rooted stores.housed,
        (Path.utf8ByteSize_le_of_prefix within).trans placed.fits.usable.2⟩
    · have sound := placed.fits.sound
      unfold FileTree.hasNull at sound ⊢
      rw [← Bool.not_eq_true, List.contains_iff_mem] at sound ⊢
      exact fun null => sound ((rooted_cut rooted stores.housed).1.subset null)
    · rw [← placed.above]
      exact FileTree.short_of_walk placed.walked
  obtain ⟨middle', made, passed⟩ := passable.makeDirectories
  have above : ∀ list, list <+: FileTree.leading front →
      middle'.get? (FileTree.follow [] list) = some .directory := by
    intro list within
    exact passed _ ⟨list, placed.above ▸ within, rfl⟩
  have walked : middle'.walk [] front = .ok (FileTree.follow [] front) :=
    FileTree.walk_passing above (FileTree.short_of_walk placed.walked)
  have found : middle'.get? (FileTree.follow [] front) = some .directory := by
    rw [← FileTree.follow_leading]
    exact above _ List.prefix_rfl
  have unoccupied : middle'.get? (before.location path) ≠ some .directory := by
    have kept : (now.files.makeDirectories (before.rooted (Path.directory path))).2.get?
        (before.location path) = now.files.get? (before.location path) :=
      FileTree.makeDirectories_get? aside
    rw [made] at kept
    rw [kept]
    exact free
  have written := (FileTree.write_iff placed.cut).mpr
    ⟨placed.fits, walked, found, unoccupied, (rfl : _ = middle'.insert _ (.file text'.toUTF8))⟩
  have directories : now.makeDirectories (Path.directory path) =
      (.ok (), { now with files := middle' }) := by
    rw [makeDirectories, same, made]
  refine ⟨{ now with files := middle'.insert (before.location path) (.file text'.toUTF8) }, ?_, ?_⟩
  · rw [directories]
  · rw [directories]
    unfold Workspace.write
    dsimp only
    rw [show Workspace.rooted { now with files := middle' } path = before.rooted path from same path,
      written]
    rfl

end Stores

private theorem write_error {fault : FileFault}
    (refused : workspace.write path text = .error fault) :
    workspace.files.write (workspace.rooted path) text.toUTF8 = .error fault := by
  unfold Workspace.write at refused
  rcases written : workspace.files.write (workspace.rooted path) text.toUTF8 with fault' | files
  · rw [written] at refused
    cases refused
    rfl
  · rw [written] at refused
    cases refused

/-- With a directory above it, a file is not refused for something missing. -/
theorem settled (rooted : Path.isAbsolute workspace.directory = true)
    (housed : Path.directory path ≠ "") :
    (∀ other, (workspace.makeDirectories (Path.directory path)).1 ≠ .error (.failed .notFound other)) ∧
      ((workspace.makeDirectories (Path.directory path)).1 = .ok () → ∀ text other,
        (workspace.makeDirectories (Path.directory path)).2.write path text ≠
          .error (.failed .notFound other)) := by
  have settled : FileTree.Settled (workspace.rooted (Path.directory path))
      (workspace.files.makeDirectories (workspace.rooted (Path.directory path))) :=
    FileTree.makeDirectories_settled (rooted_ne rooted housed)
  refine ⟨settled.fault, fun made text other refused => ?_⟩
  have present := settled.present fun fault failed => by cases made.symm.trans failed
  obtain ⟨_, base, leading⟩ := rooted_cut rooted housed
  have nonempty : path ≠ "" := by
    rintro rfl
    exact housed rfl
  have refused := write_error refused
  refine FileTree.write_fault (rooted_ne rooted nonempty) (fun missing => ?_) refused
  rw [FileTree.leading_cut, base] at leading
  obtain ⟨more, within⟩ := FileTree.leading_split_prefix (workspace.rooted path)
  rw [List.append_cancel_right leading] at within
  have missing := FileTree.walk_missing_append missing more
  rw [within] at missing
  exact present missing

theorem Grows.passes {before after : Workspace} (grows : before.Grows changing after) :
    after.Passes path place ↔ before.Passes path place := by
  unfold Passes
  rw [grows.rooted]

end Workspace

namespace Build

/-- The place of one of the outputs. -/
def AtOutput (settings : BuildSettings) (workspace : Workspace) (paths : List String)
    (place : Location) : Prop :=
  ∃ path ∈ paths, workspace.location (settings.outputPath path) = place

/-- A place above one of the outputs. -/
def AboveOutput (settings : BuildSettings) (workspace : Workspace) (paths : List String)
    (place : Location) : Prop :=
  ∃ path ∈ paths, workspace.Passes (settings.outputPath path) place

/-- The files are those at the start, with the outputs of some sources over them. -/
structure Overlays (settings : BuildSettings) (start : Workspace) (paths : List String)
    (now : Workspace) : Prop where
  grows : start.Grows (AtOutput settings start paths) now
  file : ∀ place, AtOutput settings start paths place →
    ∃ content, now.files.get? place = some (.file content)
  directory : ∀ place, AboveOutput settings start paths place →
    now.files.get? place = some .directory
  kept : ∀ place, ¬ AtOutput settings start paths place → ¬ AboveOutput settings start paths place →
    now.files.get? place = start.files.get? place
  stored : ∀ path ∈ paths, ∃ (before : Workspace) (text : String) (after : Workspace),
    before.directory = start.directory ∧ before.Stores (settings.outputPath path) text after

namespace Overlays

variable {settings : BuildSettings} {start now later : Workspace} {paths more : List String}

theorem nil (start : Workspace) : Overlays settings start [] start :=
  ⟨.refl start, fun _ ⟨_, member, _⟩ => absurd member List.not_mem_nil,
    fun _ ⟨_, member, _⟩ => absurd member List.not_mem_nil, fun _ _ _ => rfl, nofun⟩

theorem shown (overlays : Overlays settings start paths now) (files : later.files = now.files)
    (directory : later.directory = now.directory) : Overlays settings start paths later := by
  refine ⟨overlays.grows.trans (.of_files files directory), ?_, ?_, ?_, overlays.stored⟩
  · rw [files]
    exact overlays.file
  · rw [files]
    exact overlays.directory
  · rw [files]
    exact overlays.kept

/-- One more output is stored. -/
theorem snoc (overlays : Overlays settings start paths now)
    (rooted : Path.isAbsolute start.directory = true)
    (stores : now.Stores (settings.outputPath path) code later) :
    Overlays settings start (paths ++ [path]) later := by
  have grows := overlays.grows
  have rooted' : Path.isAbsolute now.directory = true := grows.directory.symm ▸ rooted
  have place := grows.location (settings.outputPath path)
  have widerAt {place : Location} (earlier : AtOutput settings start paths place) :
      AtOutput settings start (paths ++ [path]) place := by
    obtain ⟨other, member, same⟩ := earlier
    exact ⟨other, List.mem_append_left _ member, same⟩
  have widerAbove {place : Location} (earlier : AboveOutput settings start paths place) :
      AboveOutput settings start (paths ++ [path]) place := by
    obtain ⟨other, member, passes⟩ := earlier
    exact ⟨other, List.mem_append_left _ member, passes⟩
  have here : AtOutput settings start (paths ++ [path])
      (start.location (settings.outputPath path)) :=
    ⟨path, List.mem_append_right _ List.mem_cons_self, rfl⟩
  refine ⟨?_, ?_, ?_, ?_, ?_⟩
  · refine (grows.weaken fun _ => widerAt).trans (stores.grows.weaken ?_)
    intro other same
    rw [same, place]
    exact here
  · rintro _ ⟨other, member, rfl⟩
    rcases List.mem_append.mp member with earlier | last
    · obtain ⟨content, found⟩ := overlays.file _ ⟨other, earlier, rfl⟩
      exact stores.grows.files.file found
    · rw [List.mem_singleton.mp last, ← place]
      exact ⟨_, stores.get?_location⟩
  · rintro other ⟨path', member, passes⟩
    rcases List.mem_append.mp member with earlier | last
    · exact stores.grows.files.directory (overlays.directory _ ⟨path', earlier, passes⟩)
    · rw [List.mem_singleton.mp last] at passes
      exact stores.get?_passed rooted' (grows.passes.mpr passes)
  · intro other notAt notAbove
    rw [← overlays.kept other (fun earlier => notAt (widerAt earlier))
      fun earlier => notAbove (widerAbove earlier)]
    apply stores.get?_aside rooted'
    · intro same
      rw [same, place] at notAt
      exact notAt here
    · intro passes
      exact notAbove ⟨path, List.mem_append_right _ List.mem_cons_self, grows.passes.mp passes⟩
  · intro other member
    rcases List.mem_append.mp member with earlier | last
    · exact overlays.stored other earlier
    · rw [List.mem_singleton.mp last]
      exact ⟨now, code, later, grows.directory, stores⟩

theorem apart (overlays : Overlays settings start paths now)
    (isOutput : AtOutput settings start paths place) : ¬ AboveOutput settings start paths place := by
  intro above
  obtain ⟨content, file⟩ := overlays.file place isOutput
  rw [overlays.directory place above] at file
  cases file

end Overlays

theorem AtOutput.widen (isOutput : AtOutput settings start paths place)
    (subset : ∀ path ∈ paths, path ∈ more) : AtOutput settings start more place := by
  obtain ⟨path, member, same⟩ := isOutput
  exact ⟨path, subset path member, same⟩

theorem AboveOutput.widen (above : AboveOutput settings start paths place)
    (subset : ∀ path ∈ paths, path ∈ more) : AboveOutput settings start more place := by
  obtain ⟨path, member, passes⟩ := above
  exact ⟨path, subset path member, passes⟩

/-- The files are the same as at the start, apart from outputs of some sources and the directories
above them. Nothing is in the way of these outputs. -/
structure Differs (settings : BuildSettings) (start : Workspace) (paths : List String)
    (now : Workspace) : Prop where
  directory : now.directory = start.directory
  kept : ∀ place, ¬ AtOutput settings start paths place → ¬ AboveOutput settings start paths place →
    now.files.get? place = start.files.get? place
  free : ∀ place, AtOutput settings start paths place → now.files.get? place ≠ some .directory
  passing : ∀ place, AboveOutput settings start paths place →
    now.files.get? place = none ∨ now.files.get? place = some .directory

section
variable {settings : BuildSettings} {start other now later : Workspace} {paths more : List String}

theorem Overlays.differs (overlays : Overlays settings start paths now) :
    Differs settings start paths now where
  directory := overlays.grows.directory
  kept := overlays.kept
  free place isOutput found := by
    obtain ⟨content, file⟩ := overlays.file place isOutput
    rw [found] at file
    cases file
  passing place above := .inr (overlays.directory place above)

theorem Overlays.differs_start (overlays : Overlays settings start paths now) :
    Differs settings start paths start where
  directory := rfl
  kept _ _ _ := rfl
  free place isOutput found :=
    overlays.differs.free place isOutput (overlays.grows.files.directory found)
  passing place above := by
    cases found : start.files.get? place with
    | none => exact .inl rfl
    | some entry =>
      cases entry with
      | directory => exact .inr rfl
      | file content =>
        obtain ⟨_, file⟩ := overlays.grows.files.file found
        rw [overlays.directory place above] at file
        cases file

namespace Differs

theorem at_iff (directory : other.directory = start.directory) :
    AtOutput settings other paths place ↔ AtOutput settings start paths place := by
  unfold AtOutput Workspace.location Workspace.rooted
  rw [directory]

theorem above_iff (directory : other.directory = start.directory) :
    AboveOutput settings other paths place ↔ AboveOutput settings start paths place := by
  unfold AboveOutput Workspace.Passes Workspace.rooted
  rw [directory]

/-- Some of the outputs may lie over the files. -/
theorem overlaid (differs : Differs settings start more other)
    (further : Overlays settings start more later) (overlays : Overlays settings other paths now)
    (subset : ∀ path ∈ paths, path ∈ more) : Differs settings start more now := by
  have widerAt {place : Location} (isOutput : AtOutput settings other paths place) :
      AtOutput settings start more place := ((at_iff differs.directory).mp isOutput).widen subset
  have widerAbove {place : Location} (above : AboveOutput settings other paths place) :
      AboveOutput settings start more place := ((above_iff differs.directory).mp above).widen subset
  refine ⟨overlays.grows.directory.trans differs.directory, ?_, ?_, ?_⟩
  · intro place notAt notAbove
    rw [overlays.kept place (fun isOutput => notAt (widerAt isOutput))
      fun above => notAbove (widerAbove above)]
    exact differs.kept place notAt notAbove
  · intro place isOutput
    by_cases written : AtOutput settings other paths place
    · exact overlays.differs.free place written
    · rw [overlays.kept place written fun above => further.apart isOutput (widerAbove above)]
      exact differs.free place isOutput
  · intro place above
    by_cases made : AboveOutput settings other paths place
    · exact .inr (overlays.directory place made)
    · rw [overlays.kept place (fun isOutput => further.apart (widerAt isOutput) above) made]
      exact differs.passing place above

/-- With all outputs over them the files only grow. -/
theorem grows (differs : Differs settings start more now)
    (further : Overlays settings start more later) :
    now.Grows (AtOutput settings start more) later := by
  refine ⟨fun place entry found => ?_, further.grows.directory.trans differs.directory.symm⟩
  by_cases above : AboveOutput settings start more place
  · rcases differs.passing place above with absent | made
    · cases absent.symm.trans found
    · cases made.symm.trans found
      exact .inl (further.directory place above)
  by_cases isOutput : AtOutput settings start more place
  · refine .inr ⟨isOutput, ?_, further.file place isOutput⟩
    rintro rfl
    exact differs.free place isOutput found
  · rw [differs.kept place isOutput above] at found
    exact .inl (further.grows.files.kept isOutput found)

/-- Each of the outputs can be stored. -/
theorem stores (differs : Differs settings start more now)
    (further : Overlays settings start more later)
    (rooted : Path.isAbsolute start.directory = true) (member : path ∈ more) (code : String) :
    ∃ after, now.Stores (settings.outputPath path) code after := by
  obtain ⟨before, text, after, directory, stores⟩ := further.stored path member
  have same (path : String) : before.rooted path = start.rooted path := by
    unfold Workspace.rooted
    rw [directory]
  apply stores.again (directory ▸ rooted) (differs.directory.trans directory.symm)
  · intro place passes
    unfold Workspace.Passes at passes
    rw [same] at passes
    exact differs.passing place ⟨path, member, passes⟩
  · rw [Workspace.location, same]
    exact differs.free _ ⟨path, member, rfl⟩

end Differs

namespace Overlays

/-- With more outputs the files only grow. -/
theorem grows_of_subset (overlays : Overlays settings start paths now)
    (further : Overlays settings start more later) (subset : ∀ path ∈ paths, path ∈ more) :
    now.Grows (AtOutput settings start more) later :=
  (further.differs_start.overlaid further overlays subset).grows further

/-- An output that is stored with all others can be stored with some of them. -/
theorem stores (overlays : Overlays settings start paths now)
    (further : Overlays settings start more later) (subset : ∀ path ∈ paths, path ∈ more)
    (rooted : Path.isAbsolute start.directory = true) (member : path ∈ more) (code : String) :
    ∃ after, now.Stores (settings.outputPath path) code after :=
  (further.differs_start.overlaid further overlays subset).stores further rooted member code

/-- The same sources can be loaded as at the start, if they are no outputs. -/
theorem load_iff (overlays : Overlays settings start paths now) (founded : start.files.Founded)
    (normal : Path.Normal path slashes list)
    (unwritten : ¬ AtOutput settings start paths (start.location path)) :
    SourceFile.load now path = .ok program ↔ SourceFile.load start path = .ok program := by
  have same (content : ByteArray) : now.read path = .ok content ↔ start.read path = .ok content := by
    constructor
    · intro found
      unfold Workspace.read at found ⊢
      rw [overlays.grows.rooted, start.rooted_normal normal] at found
      rw [start.rooted_normal normal]
      have present := (FileTree.locate_eq_ok.mp (FileTree.read_eq_ok.mp found).2).2.2
      have place : start.location path = FileTree.location path := by
        rw [Workspace.location, start.rooted_normal normal]
      have below : ¬ AboveOutput settings start paths (start.location path) := by
        intro above
        rw [place] at above
        rw [overlays.directory _ above] at present
        cases present
      have kept := overlays.kept _ unwritten below
      rw [place, present] at kept
      exact founded.read normal found kept.symm
    · intro found
      exact overlays.grows.read found unwritten
  constructor
  · intro load
    obtain ⟨content, found⟩ := SourceFile.read_of_load load
    rw [← load]
    exact SourceFile.load_congr (((same content).mp found).trans found.symm)
  · intro load
    obtain ⟨content, found⟩ := SourceFile.read_of_load load
    rw [← load]
    exact SourceFile.load_congr (((same content).mpr found).trans found.symm)

end Overlays

end

/-- An output with no directory above it is always refused, and nothing changes. -/
theorem writeOutput_homeless (homeless : Path.directory output = "")
    (run : Yields (writeOutput output code) before result after) :
    result = .error (.file .notFound "") ∧ after = before := by
  have run := run.rest .get
  rw [homeless, Workspace.makeDirectories_empty] at run
  obtain ⟨rfl, rfl⟩ := yields_throw.mp (run.rest .set)
  exact ⟨rfl, rfl⟩

private theorem missing_of_recorded {fault : FileFault} (recorded : Recorded (.ofFile fault)) :
    ∃ path, fault = .failed .notFound path := by
  rcases recorded with ⟨error, impossible⟩ | missing
  · cases fault <;> cases impossible
  · cases fault with
    | nullByte => cases missing
    | failed error path =>
      cases error with
      | notFound => exact ⟨path, rfl⟩
      | _ => cases missing

/-- A build does not go on after any other refused output. -/
theorem writeOutput_recorded {before : BuildState} {failure : Failure}
    (rooted : Path.isAbsolute before.workspace.directory = true)
    (run : Yields (writeOutput output code) before (.error failure) after)
    (recorded : Recorded failure) : Path.directory output = "" := by
  apply Decidable.byContradiction
  intro housed
  obtain ⟨fault, rfl, refused⟩ := writeOutput_error run
  obtain ⟨path, rfl⟩ := missing_of_recorded recorded
  have settled := Workspace.settled rooted housed
  rcases refused with refused | ⟨made, refused⟩
  · exact settled.1 path refused
  · exact settled.2 made code path refused

/-- At the place of an import, a failure that ends a build is the same. -/
theorem importFailure_unrecorded {failure : Failure} (unrecorded : ¬ Recorded failure) :
    importFailure file span path failure = failure := by
  unfold importFailure
  split
  · rename_i missing
    exact absurd (.inr missing) unrecorded
  · split
    · exact absurd (.inl ⟨_, rfl⟩) unrecorded
    · rfl

mutual

/-- A compilation puts outputs over the files, unless it ends the build. -/
theorem Compiles.overlays (rooted : Path.isAbsolute start.directory = true) :
    Compiles settings depth path before events result after →
    Overlays settings start before.compiled before.workspace →
    Overlays settings start after.compiled after.workspace ∨
      ∃ failure, result = .error failure ∧ ¬ Recorded failure
  | .exhausted, overlays => .inl overlays
  | .cached _ read, overlays => by
    have shown := readOutput_shows read
    rw [shown.compiled]
    exact .inl (overlays.shown shown.files shown.directory)
  | .cyclic _ _ warned, overlays => by
    have shown := warn_shows warned
    rw [shown.compiled]
    exact .inl (overlays.shown shown.files shown.directory)
  | .unloaded _ _ _, overlays => .inl overlays
  | .unfilled _ _ _ filled, overlays => by
    rcases filled.overlays rooted overlays with reached | ended
    · exact .inl reached
    · exact .inr ended
  | .unwritten _ _ _ filled refused, overlays => by
    rcases filled.overlays rooted overlays with reached | ⟨_, impossible, _⟩
    · by_cases housed : Path.directory (settings.outputPath path) = ""
      · obtain ⟨_, rfl⟩ := writeOutput_homeless housed refused
        exact .inl reached
      · have rooted := reached.grows.directory.symm ▸ rooted
        exact .inr ⟨_, rfl, fun recorded => housed (writeOutput_recorded rooted refused recorded)⟩
    · cases impossible
  | .written _ _ _ filled wrote told, overlays => by
    have shown := info_shows told
    rcases filled.overlays rooted overlays with reached | ⟨_, impossible, _⟩
    · obtain ⟨_, stores, rfl⟩ := writeOutput_ok wrote
      rw [shown.compiled]
      exact .inl ((reached.snoc rooted stores).shown shown.files shown.directory)
    · cases impossible

theorem Fills.overlays (rooted : Path.isAbsolute start.directory = true) :
    Fills settings depth file fragments before events result after →
    Overlays settings start before.compiled before.workspace →
    Overlays settings start after.compiled after.workspace ∨
      ∃ failure, result = .error failure ∧ ¬ Recorded failure
  | .nil, overlays => .inl overlays
  | .text following, overlays => by
    rcases following.overlays rooted overlays with reached | ⟨failure, rfl, unrecorded⟩
    · exact .inl reached
    · exact .inr ⟨failure, rfl, unrecorded⟩
  | .failed imported, overlays => by
    rcases imported.overlays rooted overlays with reached | ⟨_, same, unrecorded⟩
    · exact .inl reached
    · cases same
      exact .inr ⟨_, congrArg Except.error (importFailure_unrecorded unrecorded), unrecorded⟩
  | .site imported following, overlays => by
    rcases imported.overlays rooted overlays with middle | ⟨_, impossible, _⟩
    · rcases following.overlays rooted middle with reached | ⟨failure, rfl, unrecorded⟩
      · exact .inl reached
      · exact .inr ⟨failure, rfl, unrecorded⟩
    · cases impossible

end

/-- A failure that is none of the sources' own: they nest too deep, or in a state with the invariant
the output of one of the files is refused. -/
inductive Blocked (settings : BuildSettings) (invariant : BuildState → Prop) (files : String → Prop) :
    Failure → Prop where
  | exhausted : Blocked settings invariant files .nestedTooDeep
  | refused {failure : Failure} (holds : invariant state) (file : files path)
      (refused : ∀ workspace, ¬ state.workspace.Stores (settings.outputPath path) code workspace)
      (unrecorded : ¬ Recorded failure) : Blocked settings invariant files failure

namespace Blocked

variable {failure : Failure}

theorem unrecorded (blocked : Blocked settings invariant files failure) : ¬ Recorded failure := by
  cases blocked with
  | exhausted =>
    rintro (⟨_, impossible⟩ | impossible)
    · cases impossible
    · cases impossible
  | refused _ _ _ unrecorded => exact unrecorded

theorem imported (blocked : Blocked settings invariant files failure) :
    importFailure file span path failure = failure :=
  importFailure_unrecorded blocked.unrecorded

theorem widen {more : String → Prop} (blocked : Blocked settings invariant files failure)
    (wider : ∀ path, files path → more path) : Blocked settings invariant more failure := by
  cases blocked with
  | exhausted => exact .exhausted
  | refused holds file refused unrecorded => exact .refused holds (wider _ file) refused unrecorded

end Blocked

end Build

end ScriptKit
