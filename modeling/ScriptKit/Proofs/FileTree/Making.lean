import Mathlib.Data.List.Induction
import ScriptKit.Proofs.FileTree.Passing

/-!
Making directories. Only places that the path passes are touched. If each of these is empty or a
directory, all of them are directories afterwards; and a path that says anything at all is never
refused for something missing. What a path needs for a file to be written there or read from there.
-/
namespace ScriptKit.FileTree

/-- A directory is made where its path leads. -/
theorem makeDirectoryAt_location {tree after : FileTree}
    (made : tree.makeDirectoryAt path = .ok after) :
    after = tree.insert (location path) .directory ∧ tree.get? (location path) = none := by
  obtain ⟨target, found, notDot, notUp, _, absent, same⟩ := makeDirectoryAt_eq_ok made
  obtain ⟨_, _, named, front, blanks, parts, blank, _, walked⟩ := destination_eq_some found
  have arrives : advance target.directory target.name = target.directory ++ [target.name] := by
    simp [advance, named, notDot, notUp]
  have place : location path = target.directory ++ [target.name] := by
    rw [location, ← follow_leading, parts, leading_append, ← List.singleton_append, leading_append,
      leading_blank blank, List.append_nil, follow_append, follow_leading, follow_leading,
      ← walk_eq_follow walked]
    exact arrives
  rw [place]
  exact ⟨same, absent⟩

private theorem makeLastDirectory_cases (tree : FileTree) (path : String) :
    tree.makeLastDirectory path = (.error .nullByte, tree) ∨
      (∃ after, tree.makeDirectoryAt path = .ok after ∧
        tree.makeLastDirectory path = (.ok (), after)) ∨
      (tree.hasDirectory path = true ∧ tree.makeLastDirectory path = (.ok (), tree)) ∨
      ∃ error, tree.makeDirectoryAt path = .error error ∧
        tree.makeLastDirectory path = (.error (.failed error path), tree) := by
  unfold makeLastDirectory ensureDirectory
  cases hasNull path with
  | true => exact .inl rfl
  | false =>
    rcases tree.makeDirectoryAt path with error | after
    · cases there : tree.hasDirectory path with
      | true => exact .inr (.inr (.inl ⟨rfl, rfl⟩))
      | false => exact .inr (.inr (.inr ⟨error, rfl, rfl⟩))
    · exact .inr (.inl ⟨after, rfl, rfl⟩)

/-- Only the place that the path leads to is touched. -/
theorem makeLastDirectory_get? {tree : FileTree} (other : place ≠ location path) :
    (tree.makeLastDirectory path).2.get? place = tree.get? place := by
  rcases tree.makeLastDirectory_cases path with same | ⟨after, made, same⟩ | ⟨_, same⟩ | ⟨_, _, same⟩
  · rw [same]
  · rw [same]
    obtain ⟨rfl, absent⟩ := makeDirectoryAt_location made
    have nonroot : location path ≠ [] := by
      intro root
      rw [root] at absent
      cases absent
    exact (get?_insert nonroot _ _ _).trans (if_neg other)
  · rw [same]
  · rw [same]

/-- Only places that the path passes are touched. -/
theorem makeDirectories_get? {tree : FileTree} (aside : ¬ Passes path place) :
    (tree.makeDirectories path).2.get? place = tree.get? place := by
  have other {path : String} (aside : ¬ Passes path place) : place ≠ location path := by
    rintro rfl
    exact aside (passes_location path)
  fun_induction makeDirectories tree path with
  | case1 path above last => exact makeLastDirectory_get? (other aside)
  | case2 path above further shorter ih =>
    have before := ih fun passes => aside passes.of_split
    refine Eq.trans ?_ before
    unfold makeBelow
    dsimp only
    split
    · split
      · rfl
      · exact makeLastDirectory_get? (other aside)
    · split
      · split
        · rfl
        · exact makeLastDirectory_get? (other aside)
      · rfl
  | case3 path above further longer => exact makeLastDirectory_get? (other aside)

/-- Nothing is in the way of the directories of a path. -/
structure Passable (tree : FileTree) (path : String) : Prop where
  usable : Usable path
  sound : hasNull path = false
  short : ∀ part ∈ leading (pathParts path), part.utf8ByteSize ≤ nameLimit
  free : ∀ place, Passes path place → tree.get? place = none ∨ tree.get? place = some .directory

namespace Passable

variable {tree : FileTree}

theorem above (passable : Passable tree path) (nonempty : (splitPath path).1 ≠ "") :
    Passable tree (splitPath path).1 := by
  have within := splitPath_prefix path
  refine ⟨⟨nonempty, ?_⟩, ?_, ?_, fun place passes => passable.free place passes.of_split⟩
  · exact (Path.utf8ByteSize_le_of_prefix within).trans passable.usable.2
  · have sound := passable.sound
    unfold hasNull at sound ⊢
    rw [← Bool.not_eq_true, List.contains_iff_mem] at sound ⊢
    exact fun member => sound (within.subset member)
  · intro part member
    apply passable.short
    rw [leading_split path]
    exact List.mem_append_left _ member

/-- A directory that is passed with all above it is there. -/
theorem hasDirectory (passable : Passable tree path)
    (passing : ∀ place, Passes path place → tree.get? place = some .directory) :
    tree.hasDirectory path = true := by
  have walked : tree.walk [] (pathParts path) = .ok (location path) :=
    walk_passing (fun list front => passing _ ⟨list, front, rfl⟩) passable.short
  have located : tree.locate path = .ok (location path, .directory) :=
    locate_eq_ok.mpr ⟨passable.usable, walked, passing _ (passes_location path)⟩
  rw [FileTree.hasDirectory, entryAt?, if_neg (by simp [passable.sound]), located]
  rfl

/-- A directory is made or was there, if all above it are there. -/
theorem makeLastDirectory (passable : Passable tree path)
    (passing : ∀ place, Passes (splitPath path).1 place → tree.get? place = some .directory) :
    ∃ after, tree.makeLastDirectory path = (.ok (), after) ∧
      ∀ place, Passes path place → after.get? place = some .directory := by
  have above := passing _ (passes_location _)
  have nothing : tree.get? (location path) = some .directory → ∃ after,
      tree.makeLastDirectory path = (.ok (), after) ∧
        ∀ place, Passes path place → after.get? place = some .directory := by
    intro there
    have all : ∀ place, Passes path place → tree.get? place = some .directory := by
      intro place passes
      rcases passes.split with passes | rfl
      · exact passing place passes
      · exact there
    refine ⟨tree, ?_, all⟩
    unfold FileTree.makeLastDirectory ensureDirectory
    rw [passable.sound, passable.hasDirectory all]
    rcases made : tree.makeDirectoryAt path with error | after
    · rfl
    · rw [(makeDirectoryAt_location made).2] at there
      cases there
  by_cases stays : (splitPath path).2 = "" ∨ (splitPath path).2 = "."
  · apply nothing
    rw [location_split, advance, if_pos stays]
    exact above
  by_cases up : (splitPath path).2 = ".."
  · apply nothing
    obtain ⟨list, front, same⟩ :=
      exists_follow_dropLast (leading (pathParts (splitPath path).1))
    rw [location_split, advance, if_neg stays, if_pos up, location, ← follow_leading, ← same]
    exact passing _ ⟨list, front, rfl⟩
  rcases passable.free _ (passes_location path) with absent | there
  · rcases pathParts_split path with ⟨none, _⟩ | ⟨front, blanks, ends, same⟩
    · exact absurd (.inl none) stays
    have short := passable.short
    have size : (splitPath path).2.utf8ByteSize ≤ nameLimit := by
      apply short
      rw [leading_split]
      apply List.mem_append_right
      exact List.mem_filter.mpr ⟨List.mem_singleton.mpr rfl, by simpa using stays⟩
    have walked : tree.walk [] front = .ok (location (splitPath path).1) := by
      rw [location, ← follow_leading, ← same, follow_leading]
      apply walk_passing
      · intro list within
        exact passing _ ⟨list, same ▸ within, rfl⟩
      · intro part member
        apply short
        rw [leading_split, ← same]
        exact List.mem_append_left _ member
    have place : location path = location (splitPath path).1 ++ [(splitPath path).2] := by
      rw [location_split, advance, if_neg stays, if_neg up]
    have made : tree.makeDirectoryAt path = .ok (tree.insert (location path) .directory) := by
      rw [not_or] at stays
      rw [place] at absent ⊢
      unfold makeDirectoryAt
      rw [destination_of_ends passable.usable ends, walked]
      simp [bind, Except.bind, isDirectoryAt_iff.mpr above, stays, up, Nat.not_lt.mpr size, absent,
        pure, Except.pure]
    have nonroot : location path ≠ [] := by
      rw [place]
      simp
    refine ⟨tree.insert (location path) .directory, ?_, fun other passes => ?_⟩
    · unfold FileTree.makeLastDirectory ensureDirectory
      rw [passable.sound, made]
      rfl
    · rw [get?_insert nonroot]
      split
      · rfl
      · rename_i apart
        rcases passes.split with passes | same
        · exact passing other passes
        · exact absurd same apart
  · exact nothing there

/-- All directories of a path are there once they have been made. -/
theorem makeDirectories (passable : Passable tree path) :
    ∃ after, tree.makeDirectories path = (.ok (), after) ∧
      ∀ place, Passes path place → after.get? place = some .directory := by
  have root {path : String} {place : Location} (bare : leading (pathParts path) = []) (passes : Passes path place) :
      tree.get? place = some .directory := by
    obtain ⟨list, front, rfl⟩ := passes
    rw [bare] at front
    rw [List.prefix_nil.mp front]
    exact tree.get?_root
  fun_induction FileTree.makeDirectories tree path with
  | case1 path above last =>
    apply passable.makeLastDirectory
    intro place passes
    rcases last with none | none | found
    · apply root _ passes
      rw [show (splitPath path).1 = "" from none]
      rfl
    · apply root _ passes
      rcases pathParts_split path with ⟨_, blank⟩ | ⟨_, _, ends, _⟩
      · have split := leading_split path
        rw [leading_blank blank] at split
        exact (List.append_eq_nil_iff.mp split.symm).1
      · exact absurd none ends.named
    · obtain ⟨list, front, rfl⟩ := passes
      obtain ⟨reached, walked, entry, present⟩ := exists_walk_of_contains found
      by_cases whole : list = leading (pathParts above)
      · have arrived := walk_eq_follow walked
        rw [whole, follow_leading, ← arrived]
        rcases passable.free reached (arrived ▸ (passes_location above).of_split) with absent | there
        · rw [absent] at present
          cases present
        · exact there
      · exact passing_of_walk walked front whole
  | case2 path above further shorter ih =>
    simp only [not_or] at further
    obtain ⟨middle, made, passing⟩ := ih (passable.above further.1)
    have free : ∀ place, Passes path place →
        middle.get? place = none ∨ middle.get? place = some .directory := by
      intro place passes
      by_cases within : Passes above place
      · exact .inr (passing place within)
      · have kept : (tree.makeDirectories above).2.get? place = tree.get? place :=
          makeDirectories_get? within
        rw [made] at kept
        rw [kept]
        exact passable.free place passes
    rw [made]
    unfold makeBelow
    dsimp only
    split
    · rename_i dot
      refine ⟨middle, rfl, fun place passes => ?_⟩
      rcases passes.split with passes | rfl
      · exact passing place passes
      · rw [location_split, advance, if_pos (.inr dot)]
        exact passing _ (passes_location _)
    · have further : Passable middle path :=
        ⟨passable.usable, passable.sound, passable.short, free⟩
      exact further.makeLastDirectory passing
  | case3 path above further longer =>
    simp only [not_or] at further
    exact absurd (splitPath_length further.2.1) longer

end Passable

/-- What making the directories of a path comes to: it does not fail for something missing, and if it
goes on, nothing on the path is missing. -/
structure Settled (path : String) (outcome : Except FileFault Unit × FileTree) : Prop where
  fault : ∀ other, outcome.1 ≠ .error (.failed .notFound other)
  present : (∀ fault, outcome.1 = .error fault → fault.isExisting = true) →
    outcome.2.walk [] (leading (pathParts path)) ≠ .error .notFound

private theorem makeDirectoryAt_error {tree : FileTree} (ends : Ends path front name blanks)
    (failed : tree.makeDirectoryAt path = .error error) :
    tree.walk [] front = .error error ∨ error = .notDirectory ∨ error = .nameTooLong ∨
      error = .exists ∧ ∃ place, tree.walk [] front = .ok place ∧
        (Names name → ∃ entry, tree.get? (place ++ [name]) = some entry) := by
  unfold makeDirectoryAt at failed
  rcases checkPath_cases (nonempty_of_ends ends) with usable | long
  swap
  · rw [destination_of_checkPath long] at failed
    cases failed
    exact .inr (.inr (.inl rfl))
  rw [destination_of_ends usable ends] at failed
  rcases walked : tree.walk [] front with error' | place
  · rw [walked] at failed
    cases failed
    exact .inl rfl
  · rw [walked] at failed
    cases directory : tree.isDirectoryAt place with
    | false =>
      simp [bind, Except.bind, directory] at failed
      exact .inr (.inl failed.symm)
    | true =>
      by_cases dotted : name = "." ∨ name = ".."
      · simp [bind, Except.bind, directory, dotted, throw, throwThe, MonadExceptOf.throw] at failed
        refine .inr (.inr (.inr ⟨failed.symm, place, rfl, fun named => ?_⟩))
        rcases dotted with dot | up
        · exact absurd dot named.2.1
        · exact absurd up named.2.2
      by_cases long : nameLimit < name.utf8ByteSize
      · simp [bind, Except.bind, directory, dotted, long, throw, throwThe,
          MonadExceptOf.throw] at failed
        exact .inr (.inr (.inl failed.symm))
      cases found : tree.get? (place ++ [name]) with
      | none =>
        simp [bind, Except.bind, directory, dotted, long, found, pure, Except.pure] at failed
      | some entry =>
        simp [bind, Except.bind, directory, dotted, long, found, throw, throwThe,
          MonadExceptOf.throw] at failed
        exact .inr (.inr (.inr ⟨failed.symm, place, rfl, fun _ => ⟨entry, found⟩⟩))

private theorem settled_last {tree : FileTree}
    (present : tree.walk [] (leading (pathParts (splitPath path).1)) ≠ .error .notFound)
    (nonempty : path ≠ "") : Settled path (tree.makeLastDirectory path) := by
  rcases pathParts_split path with ⟨_, blank⟩ | ⟨front, blanks, ends, split⟩
  · -- The path is made of slashes and leads to the root.
    have root : tree.walk [] (leading (pathParts path)) ≠ .error .notFound := by
      intro missing
      rw [leading_blank blank] at missing
      cases missing
    have made : tree.makeDirectoryAt path = .error .exists ∨
        tree.makeDirectoryAt path = .error .nameTooLong := by
      unfold makeDirectoryAt
      rcases checkPath_cases nonempty with usable | long
      · rw [destination_of_blank usable blank]
        exact .inl rfl
      · rw [destination_of_checkPath long]
        exact .inr rfl
    rcases tree.makeLastDirectory_cases path with same | ⟨_, made', same⟩ | ⟨_, same⟩ | ⟨_, made', same⟩
    · rw [same]
      exact ⟨nofun, fun _ => root⟩
    · rcases made with made | made <;> cases made.symm.trans made'
    · rw [same]
      exact ⟨nofun, fun _ => root⟩
    · rcases made with made | made <;>
      · cases made.symm.trans made'
        rw [same]
        exact ⟨nofun, fun _ => root⟩
  rw [← split] at present
  have above : tree.walk [] front ≠ .error .notFound := fun missing =>
    present ((walk_missing_iff [] front).mp missing)
  rcases tree.makeLastDirectory_cases path with
    same | ⟨after, made, same⟩ | ⟨there, same⟩ | ⟨error, made, same⟩
  · rw [same]
    exact ⟨nofun, fun existing => absurd (existing _ rfl) Bool.false_ne_true⟩
  · rw [same]
    refine ⟨nofun, fun _ missing => ?_⟩
    have grows : Grows (fun _ => False) tree after := by
      obtain ⟨rfl, absent⟩ := makeDirectoryAt_location made
      exact grows_insert_directory absent
    obtain ⟨target, found, _, _, _, _, inserted⟩ := makeDirectoryAt_eq_ok made
    rw [destination_of_ends (destination_eq_some found).1 ends] at found
    obtain ⟨place, walked, found⟩ := bind_eq_ok.mp found
    split at found
    · cases found
      rcases ends.missing missing with missing | ⟨place', walked', _, absent⟩
      · rw [grows.walk walked] at missing
        cases missing
      · obtain rfl := Except.ok.inj ((grows.walk walked).symm.trans walked')
        rw [inserted, get?_insert (by simp), if_pos rfl] at absent
        cases absent
    · cases found
  · rw [same]
    refine ⟨nofun, fun _ missing => ?_⟩
    obtain ⟨place, walked, _⟩ := exists_walk_of_contains (contains_of_hasDirectory there)
    have none := (walk_missing_iff [] _).mpr missing
    rw [walked] at none
    cases none
  · rw [same]
    rcases makeDirectoryAt_error ends made with failed | rfl | rfl | ⟨rfl, place, walked, taken⟩
    · refine ⟨fun other same => ?_, fun _ missing => ?_⟩
      · cases same
        exact above failed
      · rcases ends.missing missing with missing | ⟨place, walked, _⟩
        · exact above missing
        · rw [failed] at walked
          cases walked
    · exact ⟨nofun, fun existing => absurd (existing _ rfl) Bool.false_ne_true⟩
    · exact ⟨nofun, fun existing => absurd (existing _ rfl) Bool.false_ne_true⟩
    · refine ⟨nofun, fun _ missing => ?_⟩
      rcases ends.missing missing with missing | ⟨place', walked', named, absent⟩
      · exact above missing
      · obtain rfl := Except.ok.inj (walked.symm.trans walked')
        obtain ⟨entry, found⟩ := taken named
        rw [absent] at found
        cases found

theorem Settled.below (settled : Settled (splitPath path).1 above) (nonempty : path ≠ "") :
    Settled path (makeBelow path above) := by
  obtain ⟨made, tree⟩ := above
  have goesOn (existing : ∀ fault, made = .error fault → fault.isExisting = true) :
      Settled path (if (splitPath path).2 = "." then (.ok (), tree)
        else tree.makeLastDirectory path) := by
    have present := settled.present existing
    split
    · rename_i dot
      refine ⟨nofun, fun _ => ?_⟩
      have same : leading (pathParts path) = leading (pathParts (splitPath path).1) := by
        rw [leading_split, dot]
        exact List.append_nil _
      rw [same]
      exact present
    · exact settled_last present nonempty
  rcases made with fault | _
  · cases existing : fault.isExisting with
    | true =>
      have further := goesOn fun other same => by
        cases same
        exact existing
      simpa only [makeBelow, existing, if_true] using further
    | false =>
      simp only [makeBelow, existing, Bool.false_eq_true, if_false]
      refine ⟨settled.fault, fun all => ?_⟩
      rw [all fault rfl] at existing
      cases existing
  · exact goesOn fun _ same => by cases same

/-- A path that says anything is not refused for something missing. -/
theorem makeDirectories_settled {tree : FileTree} (nonempty : path ≠ "") :
    Settled path (tree.makeDirectories path) := by
  fun_induction makeDirectories tree path with
  | case1 path above last =>
    apply settled_last _ nonempty
    intro missing
    rcases last with none | none | found
    · rw [show (splitPath path).1 = "" from none] at missing
      cases missing
    · rcases pathParts_split path with ⟨_, blank⟩ | ⟨_, _, ends, _⟩
      · have split := leading_split path
        rw [leading_blank blank] at split
        rw [(List.append_eq_nil_iff.mp split.symm).1] at missing
        cases missing
      · exact absurd none ends.named
    · obtain ⟨place, walked, _⟩ := exists_walk_of_contains found
      have none := (walk_missing_iff [] _).mpr missing
      rw [walked] at none
      cases none
  | case2 path above further shorter ih =>
    simp only [not_or] at further
    exact (ih further.1).below nonempty
  | case3 path above further longer =>
    simp only [not_or] at further
    exact absurd (splitPath_length further.2.1) longer

/-- A file is not refused for something missing, if nothing above it is missing. -/
theorem write_fault {tree : FileTree} (nonempty : path ≠ "")
    (present : tree.walk [] (leading (pathParts (splitPath path).1)) ≠ .error .notFound) :
    tree.write path content ≠ .error (.failed .notFound other) := by
  intro refused
  unfold write at refused
  split at refused
  · cases refused
  split at refused
  · cases refused
  rename_i error failed
  cases refused
  unfold writeAt at failed
  rcases checkPath_cases nonempty with usable | long
  swap
  · rw [destination_of_checkPath long] at failed
    cases failed
  rcases pathParts_split path with ⟨_, blank⟩ | ⟨front, blanks, ends, same⟩
  · rw [destination_of_blank usable blank] at failed
    cases failed
  rw [destination_of_ends usable ends] at failed
  rcases walked : tree.walk [] front with error | place
  · rw [walked] at failed
    cases failed
    rw [← same] at present
    exact present ((walk_missing_iff [] front).mp walked)
  · rw [walked] at failed
    cases directory : tree.isDirectoryAt place with
    | false => simp [bind, Except.bind, directory] at failed
    | true =>
      by_cases barred : blanks ≠ [] ∨ (splitPath path).2 = "." ∨ (splitPath path).2 = ".."
      · simp [bind, Except.bind, directory, barred, throw, throwThe, MonadExceptOf.throw] at failed
      by_cases long : nameLimit < (splitPath path).2.utf8ByteSize
      · simp [bind, Except.bind, directory, barred, long, throw, throwThe,
          MonadExceptOf.throw] at failed
      cases taken : tree.isDirectoryAt (place ++ [(splitPath path).2]) with
      | true =>
        simp [bind, Except.bind, directory, barred, long, taken, throw, throwThe,
          MonadExceptOf.throw] at failed
      | false =>
        simp [bind, Except.bind, directory, barred, long, taken, pure, Except.pure] at failed

/-- A path at which a file may stand. -/
structure Fits (path : String) : Prop where
  usable : Usable path
  sound : hasNull path = false
  named : Names (Path.baseName path)
  short : (Path.baseName path).utf8ByteSize ≤ nameLimit

/-- A file is written into the directory above it, unless a directory is in its place. -/
theorem write_iff {tree after : FileTree} (cut : pathParts path = front ++ [Path.baseName path]) :
    tree.write path content = .ok after ↔
      Fits path ∧ tree.walk [] front = .ok (follow [] front) ∧
        tree.get? (follow [] front) = some .directory ∧
        tree.get? (location path) ≠ some .directory ∧
        after = tree.insert (location path) (.file content) := by
  have place (named : Names (Path.baseName path)) :
      location path = follow [] front ++ [Path.baseName path] := by
    obtain ⟨nonempty, notDot, notUp⟩ := named
    rw [location, cut, follow_append]
    simp [follow, advance, nonempty, notDot, notUp]
  constructor
  · intro written
    obtain ⟨sound, wrote⟩ := writeAt_of_write written
    obtain ⟨target, found, unslashed, notDot, notUp, short, free, same⟩ := writeAt_eq_ok wrote
    obtain ⟨usable, directory, nonempty, before, rest, parts, _, ends, walked⟩ :=
      destination_eq_some found
    rw [ends unslashed, cut] at parts
    obtain ⟨rfl, last⟩ := List.append_inj' parts rfl
    have last : Path.baseName path = target.name := (List.cons.inj last).1
    have arrived := walk_eq_follow walked
    rw [arrived] at walked directory free same
    rw [← last] at nonempty notDot notUp short free same
    have named : Names (Path.baseName path) := ⟨nonempty, notDot, notUp⟩
    rw [← place named] at free same
    exact ⟨⟨usable, sound, named, short⟩, walked, directory, free, same⟩
  · rintro ⟨fits, walked, directory, free, rfl⟩
    have ends : Ends path front (Path.baseName path) [] := ⟨cut, fits.named.1, List.forall_mem_nil _⟩
    have unoccupied : tree.isDirectoryAt (location path) = false := by
      rw [← Bool.not_eq_true, isDirectoryAt_iff]
      exact free
    obtain ⟨_, notDot, notUp⟩ := fits.named
    rw [place fits.named] at unoccupied ⊢
    unfold write writeAt
    rw [fits.sound, destination_of_ends fits.usable ends, walked]
    simp [bind, Except.bind, isDirectoryAt_iff.mpr directory, notDot, notUp,
      Nat.not_lt.mpr fits.short, unoccupied, pure, Except.pure]

theorem short_of_walk {tree : FileTree} (walked : tree.walk start parts = .ok reached) :
    ∀ part ∈ leading parts, part.utf8ByteSize ≤ nameLimit := by
  induction parts generalizing start with
  | nil => exact nofun
  | cons part rest ih =>
    rw [walk_cons] at walked
    obtain ⟨next, stepped, walked⟩ := bind_eq_ok.mp walked
    obtain ⟨_, _, short⟩ := step_eq_ok.mp stepped
    intro other member
    obtain ⟨member, leads⟩ := List.mem_filter.mp member
    rcases List.mem_cons.mp member with rfl | member
    · by_cases up : other = ".."
      · rw [up]
        decide
      · have named : other ≠ "" ∧ other ≠ "." := by simpa using leads
        exact (short ⟨named.1, named.2, up⟩).1
    · exact ih walked other (List.mem_filter.mpr ⟨member, leads⟩)

/-- Every entry stands in a directory. -/
def Founded (tree : FileTree) : Prop :=
  ∀ place name entry, tree.get? (place ++ [name]) = some entry → tree.get? place = some .directory

namespace Founded

variable {tree other : FileTree}

theorem above (founded : tree.Founded) (found : tree.get? (place ++ part :: rest) = some entry) :
    tree.get? place = some .directory := by
  induction rest using List.reverseRecOn generalizing entry with
  | nil => exact founded place part entry found
  | append_singleton rest last ih =>
    rw [← List.cons_append, ← List.append_assoc] at found
    exact ih (founded _ last entry found)

theorem walk (founded : tree.Founded) (named : ∀ part ∈ parts, Names part)
    (short : ∀ part ∈ parts, part.utf8ByteSize ≤ nameLimit)
    (found : tree.get? (place ++ parts) = some entry) :
    tree.walk place parts = .ok (place ++ parts) := by
  induction parts generalizing place with
  | nil =>
    rw [List.append_nil]
    rfl
  | cons part rest ih =>
    obtain ⟨first, named⟩ := List.forall_mem_cons.mp named
    obtain ⟨size, short⟩ := List.forall_mem_cons.mp short
    have here : advance place part = place ++ [part] := by
      simp [advance, first.1, first.2.1, first.2.2]
    have present : ∃ entry, tree.get? (place ++ [part]) = some entry := by
      cases rest with
      | nil => exact ⟨entry, found⟩
      | cons next others =>
        rw [List.append_cons] at found
        exact ⟨_, founded.above found⟩
    have stepped : tree.step place part = .ok (place ++ [part]) :=
      step_eq_ok.mpr ⟨founded.above found, here.symm, fun _ => ⟨size, present⟩⟩
    rw [List.append_cons] at found ⊢
    rw [walk_cons, stepped]
    exact ih named short found

/-- A file can be read under every path that another tree accepts. -/
theorem read (founded : tree.Founded) (normal : Path.Normal path slashes list)
    (accepted : other.read path = .ok content')
    (found : tree.get? (location path) = some (.file content)) : tree.read path = .ok content := by
  obtain ⟨null, located⟩ := read_eq_ok.mp accepted
  obtain ⟨usable, walked, _⟩ := locate_eq_ok.mp located
  have named := names_map_ofList normal.named
  rw [walk_normal other normal] at walked
  have short : ∀ part ∈ list.map String.ofList, part.utf8ByteSize ≤ nameLimit := by
    intro part member
    apply short_of_walk walked
    exact List.mem_filter.mpr ⟨member, by simp [(named part member).1, (named part member).2.1]⟩
  have place := location_normal normal
  rw [place] at found
  have walked : tree.walk [] (pathParts path) = .ok (location path) := by
    rw [walk_normal tree normal, place]
    exact founded.walk named short found
  rw [← place] at found
  exact read_eq_ok.mpr ⟨null, locate_eq_ok.mpr ⟨usable, walked, found⟩⟩

end Founded

end ScriptKit.FileTree
