import Mathlib.Logic.Relation
import ScriptKit.FileTree
import ScriptKit.Proofs.Table
import ScriptKit.Proofs.Yields

/-!
How files change while outputs are written. Entries are never lost, directories stay directories, and
the only contents that change are those of the files written to. A path that leads somewhere
therefore leads there ever after.
-/
namespace ScriptKit.FileTree

/-- Where one part of a path leads, provided it is there. -/
def advance (place : Location) (part : String) : Location :=
  if part = "" ∨ part = "." then place
  else if part = ".." then place.dropLast
  else place ++ [part]

def follow (place : Location) (parts : List String) : Location := parts.foldl advance place

theorem follow_append (place : Location) (parts more : List String) :
    follow place (parts ++ more) = follow (follow place parts) more :=
  List.foldl_append

/-- The location that a path names. -/
def location (path : String) : Location := follow [] (pathParts path)

theorem get?_insert {place : Location} (nonroot : place ≠ []) (tree : FileTree) (entry : Entry)
    (other : Location) :
    (tree.insert place entry).get? other = if other = place then some entry else tree.get? other := by
  unfold get? insert
  rw [Table.lookup_put]
  by_cases root : other = []
  · have apart : other ≠ place := fun same => nonroot (same ▸ root)
    simp [root, Ne.symm nonroot]
  · simp [root]

@[simp] theorem get?_root (tree : FileTree) : tree.get? [] = some .directory := rfl

theorem isDirectoryAt_iff {tree : FileTree} {place : Location} :
    tree.isDirectoryAt place = true ↔ tree.get? place = some .directory := by
  unfold isDirectoryAt
  cases tree.get? place with
  | none => simp
  | some entry => cases entry <;> simp [Entry.isDirectory]

/-- Every entry stays, unless it is a file in a changing place: that one gets some content. -/
def Grows (changing : Location → Prop) (before after : FileTree) : Prop :=
  ∀ place entry, before.get? place = some entry →
    after.get? place = some entry ∨
      changing place ∧ entry ≠ .directory ∧ ∃ content, after.get? place = some (.file content)

namespace Grows

variable {changing : Location → Prop} {before middle after : FileTree}

theorem refl (tree : FileTree) : Grows changing tree tree :=
  fun _ _ found => .inl found

theorem trans (first : Grows changing before middle) (second : Grows changing middle after) :
    Grows changing before after := by
  intro place entry found
  rcases first place entry found with kept | ⟨changes, isFile, content, written⟩
  · exact second place entry kept
  · rcases second place _ written with kept | ⟨_, _, content', written'⟩
    · exact .inr ⟨changes, isFile, content, kept⟩
    · exact .inr ⟨changes, isFile, content', written'⟩

theorem weaken {wider : Location → Prop} (grows : Grows changing before after)
    (includes : ∀ place, changing place → wider place) : Grows wider before after := by
  intro place entry found
  rcases grows place entry found with kept | ⟨changes, isFile, written⟩
  · exact .inl kept
  · exact .inr ⟨includes place changes, isFile, written⟩

theorem kept (grows : Grows changing before after) (still : ¬ changing place)
    (found : before.get? place = some entry) : after.get? place = some entry := by
  rcases grows place entry found with kept | ⟨changes, _⟩
  · exact kept
  · exact absurd changes still

theorem directory (grows : Grows changing before after)
    (found : before.get? place = some .directory) : after.get? place = some .directory := by
  rcases grows place _ found with kept | ⟨_, isFile, _⟩
  · exact kept
  · exact absurd rfl isFile

theorem file (grows : Grows changing before after)
    (found : before.get? place = some (.file content)) :
    ∃ content', after.get? place = some (.file content') := by
  rcases grows place _ found with kept | ⟨_, _, written⟩
  · exact ⟨content, kept⟩
  · exact written

theorem present (grows : Grows changing before after) (found : before.get? place = some entry) :
    ∃ entry', after.get? place = some entry' := by
  rcases grows place entry found with kept | ⟨_, _, _, written⟩
  · exact ⟨entry, kept⟩
  · exact ⟨_, written⟩

end Grows

/-- A part that leads to an entry of its own. -/
def Names (part : String) : Prop := part ≠ "" ∧ part ≠ "." ∧ part ≠ ".."

instance (part : String) : Decidable (Names part) :=
  inferInstanceAs (Decidable (part ≠ "" ∧ part ≠ "." ∧ part ≠ ".."))

/-- One part of a path, looked up in a tree. -/
def step (tree : FileTree) (place : Location) (part : String) : Except FileError Location :=
  if !tree.isDirectoryAt place then .error .notDirectory
  else if part = "" ∨ part = "." then .ok place
  else if part = ".." then .ok place.dropLast
  else if nameLimit < part.utf8ByteSize then .error .nameTooLong
  else
    match tree.get? (place ++ [part]) with
    | none => .error .notFound
    | some _ => .ok (place ++ [part])

theorem walk_cons (tree : FileTree) (place : Location) (part : String) (rest : List String) :
    tree.walk place (part :: rest) = tree.step place part >>= fun next => tree.walk next rest := by
  rw [walk, step]
  split
  · rfl
  split
  · rfl
  split
  · rfl
  split
  · rfl
  cases tree.get? (place ++ [part]) <;> rfl

theorem step_eq_ok {tree : FileTree} {place next : Location} {part : String} :
    tree.step place part = .ok next ↔
      tree.get? place = some .directory ∧ next = advance place part ∧
        (Names part → part.utf8ByteSize ≤ nameLimit ∧ ∃ entry, tree.get? next = some entry) := by
  rw [← isDirectoryAt_iff, step, advance, Names]
  cases tree.isDirectoryAt place with
  | false => simp
  | true =>
    by_cases dot : part = "" ∨ part = "."
    · grind
    · by_cases up : part = ".."
      · grind
      · grind

theorem walk_eq_follow {tree : FileTree} {start : Location} {parts : List String}
    (walked : tree.walk start parts = .ok reached) : reached = follow start parts := by
  induction parts generalizing start with
  | nil =>
    cases walked
    rfl
  | cons part rest ih =>
    rw [walk_cons] at walked
    obtain ⟨next, stepped, walked⟩ := bind_eq_ok.mp walked
    obtain ⟨_, rfl, _⟩ := step_eq_ok.mp stepped
    exact ih walked

theorem walk_append {tree : FileTree} {start : Location} {parts more : List String} :
    tree.walk start (parts ++ more) = tree.walk start parts >>= fun place => tree.walk place more := by
  induction parts generalizing start with
  | nil => rfl
  | cons part rest ih =>
    rw [List.cons_append, walk_cons, walk_cons]
    cases tree.step start part with
    | error error => rfl
    | ok next => exact ih

namespace Grows

variable {changing : Location → Prop} {before after : FileTree}

theorem step (grows : Grows changing before after) (stepped : before.step place part = .ok next) :
    after.step place part = .ok next := by
  obtain ⟨directory, same, named⟩ := step_eq_ok.mp stepped
  refine step_eq_ok.mpr ⟨grows.directory directory, same, ?_⟩
  intro names
  obtain ⟨short, _, found⟩ := named names
  exact ⟨short, grows.present found⟩

theorem walk (grows : Grows changing before after)
    (walked : before.walk start parts = .ok reached) : after.walk start parts = .ok reached := by
  induction parts generalizing start with
  | nil => exact walked
  | cons part rest ih =>
    rw [walk_cons] at walked ⊢
    obtain ⟨next, stepped, walked⟩ := bind_eq_ok.mp walked
    exact bind_eq_ok.mpr ⟨next, grows.step stepped, ih walked⟩

end Grows

/-- A path that is neither empty nor too long, so that only the tree decides where it leads. -/
def Usable (path : String) : Prop := path ≠ "" ∧ path.utf8ByteSize ≤ pathLimit

instance (path : String) : Decidable (Usable path) := inferInstanceAs (Decidable (_ ∧ _))

theorem checkPath_usable (usable : Usable path) : checkPath path = .ok () := by
  rw [checkPath, if_neg usable.1, if_neg (Nat.not_lt.mpr usable.2)]

theorem usable_of_checkPath (checked : checkPath path = .ok done) : Usable path := by
  unfold checkPath at checked
  split at checked
  · cases checked
  · split at checked
    · cases checked
    · exact ⟨‹_›, Nat.le_of_not_lt ‹_›⟩

theorem locate_eq_ok {tree : FileTree} {path : String} {place : Location} {entry : Entry} :
    tree.locate path = .ok (place, entry) ↔
      Usable path ∧ tree.walk [] (pathParts path) = .ok place ∧ tree.get? place = some entry := by
  constructor
  · intro found
    obtain ⟨_, checked, found⟩ := bind_eq_ok.mp found
    obtain ⟨reached, walked, found⟩ := bind_eq_ok.mp found
    cases present : tree.get? reached with
    | none =>
      rw [present] at found
      cases found
    | some present' =>
      rw [present] at found
      cases found
      exact ⟨usable_of_checkPath checked, walked, present⟩
  · rintro ⟨usable, walked, found⟩
    refine bind_eq_ok.mpr ⟨(), checkPath_usable usable, bind_eq_ok.mpr ⟨place, walked, ?_⟩⟩
    rw [found]
    rfl

theorem place_of_locate {tree : FileTree} (found : tree.locate path = .ok (place, entry)) :
    place = location path :=
  walk_eq_follow (locate_eq_ok.mp found).2.1

theorem Grows.locate {before after : FileTree} (grows : Grows changing before after)
    (found : before.locate path = .ok (place, entry)) (now : after.get? place = some entry') :
    after.locate path = .ok (place, entry') := by
  obtain ⟨usable, walked, _⟩ := locate_eq_ok.mp found
  exact locate_eq_ok.mpr ⟨usable, grows.walk walked, now⟩

theorem read_eq_ok {tree : FileTree} {path : String} {content : ByteArray} :
    tree.read path = .ok content ↔
      hasNull path = false ∧ tree.locate path = .ok (location path, .file content) := by
  unfold read
  cases hasNull path with
  | true => simp
  | false =>
    rcases found : tree.locate path with error | ⟨place, content' | _⟩
    · simp
    · simp [place_of_locate found]
    · simp

/-- A path at which an entry can be put: all before its last name leads to a directory, and there is
nothing but slashes after it. -/
theorem destination_eq_some {tree : FileTree} {path : String} {target : Destination}
    (found : tree.destination path = .ok (some target)) :
    Usable path ∧ tree.get? target.directory = some .directory ∧ target.name ≠ "" ∧
      ∃ before after, pathParts path = before ++ target.name :: after ∧
        (∀ part ∈ after, part = "") ∧ (target.slashed = false → after = []) ∧
        tree.walk [] before = .ok target.directory := by
  obtain ⟨_, checked, found⟩ := bind_eq_ok.mp found
  dsimp only at found
  have cut := List.takeWhile_append_dropWhile (p := (· = "")) (l := (pathParts path).reverse)
  split at found
  · cases found
  · rename_i name before remaining
    rw [remaining] at cut
    obtain ⟨directory, walked, found⟩ := bind_eq_ok.mp found
    by_cases isDirectory : tree.isDirectoryAt directory = true
    · simp only [isDirectory, Bool.not_true, Bool.false_eq_true, if_false] at found
      cases found
      refine ⟨usable_of_checkPath checked, isDirectoryAt_iff.mp isDirectory, ?_, before.reverse,
        ((pathParts path).reverse.takeWhile (· = "")).reverse, ?_, ?_, ?_, walked⟩
      · have first := List.head?_dropWhile_not (p := (· = "")) (pathParts path).reverse
        rw [remaining] at first
        simpa using first
      · have turned := congrArg List.reverse cut
        simpa using turned.symm
      · intro part member
        simpa using List.all_eq_true.mp List.all_takeWhile part (List.mem_reverse.mp member)
      · intro unslashed
        cases parts : (pathParts path).reverse with
        | nil => rfl
        | cons last rest =>
          rw [parts] at unslashed
          simp at unslashed
          simp [unslashed]
    · simp [isDirectory, bind, Except.bind, throw, throwThe, MonadExceptOf.throw] at found

private theorem grows_insert_file {tree : FileTree} (nonroot : place ≠ [])
    (free : tree.get? place ≠ some .directory) :
    Grows (· = place) tree (tree.insert place (.file content)) := by
  intro other entry found
  by_cases same : other = place
  · subst same
    refine .inr ⟨rfl, ?_, content, by rw [get?_insert nonroot, if_pos rfl]⟩
    rintro rfl
    exact free found
  · exact .inl (by rw [get?_insert nonroot, if_neg same, found])

theorem grows_insert_directory {tree : FileTree} (absent : tree.get? place = none) :
    Grows (fun _ => False) tree (tree.insert place .directory) := by
  have nonroot : place ≠ [] := by
    rintro rfl
    cases absent
  intro other entry found
  have apart : other ≠ place := by
    rintro rfl
    rw [absent] at found
    cases found
  exact .inl (by rw [get?_insert nonroot, if_neg apart, found])

theorem writeAt_eq_ok {tree after : FileTree} (written : tree.writeAt path content = .ok after) :
    ∃ target, tree.destination path = .ok (some target) ∧ target.slashed = false ∧
      target.name ≠ "." ∧ target.name ≠ ".." ∧ target.name.utf8ByteSize ≤ nameLimit ∧
      tree.get? (target.directory ++ [target.name]) ≠ some .directory ∧
      after = tree.insert (target.directory ++ [target.name]) (.file content) := by
  obtain ⟨_ | target, found, written⟩ := bind_eq_ok.mp written
  · cases written
  · dsimp only at written
    by_cases barred : target.slashed = true ∨ target.name = "." ∨ target.name = ".."
    · simp [barred, bind, Except.bind, throw, throwThe, MonadExceptOf.throw] at written
    rw [if_neg barred] at written
    by_cases long : nameLimit < target.name.utf8ByteSize
    · simp [long, bind, Except.bind, throw, throwThe, MonadExceptOf.throw] at written
    rw [if_neg long] at written
    by_cases taken : tree.isDirectoryAt (target.directory ++ [target.name]) = true
    · simp [taken, bind, Except.bind, throw, throwThe, MonadExceptOf.throw] at written
    rw [if_neg taken] at written
    cases written
    rw [isDirectoryAt_iff] at taken
    simp only [not_or, Bool.not_eq_true] at barred
    exact ⟨target, found, barred.1, barred.2.1, barred.2.2, Nat.le_of_not_lt long, taken, rfl⟩

theorem writeAt_of_write {tree after : FileTree} (written : tree.write path content = .ok after) :
    hasNull path = false ∧ tree.writeAt path content = .ok after := by
  unfold write at written
  cases null : hasNull path with
  | true => simp [null] at written
  | false =>
    rw [null] at written
    rcases wrote : tree.writeAt path content with error | final
    · simp [wrote] at written
    · simp only [wrote, Bool.false_eq_true, if_false] at written
      cases written
      exact ⟨rfl, rfl⟩

/-- A file is written where its path leads, and read from there. -/
theorem write_eq_ok {tree after : FileTree} (written : tree.write path content = .ok after) :
    hasNull path = false ∧ Grows (· = location path) tree after ∧
      after.locate path = .ok (location path, .file content) := by
  obtain ⟨sound, wrote⟩ := writeAt_of_write written
  obtain ⟨target, found, unslashed, notDot, notUp, short, free, rfl⟩ := writeAt_eq_ok wrote
  obtain ⟨usable, directory, named, before, rest, parts, _, ends, walked⟩ :=
    destination_eq_some found
  rw [ends unslashed] at parts
  have arrives : advance target.directory target.name = target.directory ++ [target.name] := by
    simp [advance, named, notDot, notUp]
  have place : location path = target.directory ++ [target.name] := by
    rw [location, parts, follow_append, ← walk_eq_follow walked]
    exact arrives
  have nonroot : location path ≠ [] := by simp [place]
  rw [← place] at arrives free ⊢
  have grows : Grows (· = location path) tree (tree.insert (location path) (.file content)) :=
    grows_insert_file nonroot free
  have now : (tree.insert (location path) (.file content)).get? (location path) =
      some (.file content) := by
    rw [get?_insert nonroot, if_pos rfl]
  refine ⟨sound, grows, locate_eq_ok.mpr ⟨usable, ?_, now⟩⟩
  rw [parts, walk_append, grows.walk walked]
  refine bind_eq_ok.mpr ⟨target.directory, rfl, ?_⟩
  rw [walk_cons]
  exact bind_eq_ok.mpr ⟨location path, step_eq_ok.mpr
    ⟨grows.directory directory, arrives.symm, fun _ => ⟨short, _, now⟩⟩, rfl⟩

/-- A directory is made where nothing was. -/
def Furnishes (before after : FileTree) : Prop :=
  ∃ place, before.get? place = none ∧ after = before.insert place .directory

theorem makeDirectoryAt_eq_ok {tree after : FileTree}
    (made : tree.makeDirectoryAt path = .ok after) :
    ∃ target, tree.destination path = .ok (some target) ∧ target.name ≠ "." ∧ target.name ≠ ".." ∧
      target.name.utf8ByteSize ≤ nameLimit ∧
      tree.get? (target.directory ++ [target.name]) = none ∧
      after = tree.insert (target.directory ++ [target.name]) .directory := by
  obtain ⟨_ | target, found, made⟩ := bind_eq_ok.mp made
  · cases made
  · dsimp only at made
    by_cases dotted : target.name = "." ∨ target.name = ".."
    · simp [dotted, bind, Except.bind, throw, throwThe, MonadExceptOf.throw] at made
    rw [if_neg dotted] at made
    by_cases long : nameLimit < target.name.utf8ByteSize
    · simp [long, bind, Except.bind, throw, throwThe, MonadExceptOf.throw] at made
    rw [if_neg long] at made
    by_cases taken : (tree.get? (target.directory ++ [target.name])).isSome = true
    · simp [taken, bind, Except.bind, throw, throwThe, MonadExceptOf.throw] at made
    rw [if_neg taken] at made
    cases made
    simp only [not_or] at dotted
    exact ⟨target, found, dotted.1, dotted.2, Nat.le_of_not_lt long, by simpa using taken, rfl⟩

private theorem makeDirectoryAt_furnishes {tree after : FileTree}
    (made : tree.makeDirectoryAt path = .ok after) : Furnishes tree after := by
  obtain ⟨target, _, _, _, _, absent, same⟩ := makeDirectoryAt_eq_ok made
  exact ⟨_, absent, same⟩

section
variable {kept : FileTree → Prop} (each : ∀ tree after path, hasNull path = false →
  tree.makeDirectoryAt path = .ok after → kept tree → kept after)
include each

private theorem makeLastDirectory_keeps {tree : FileTree} (holds : kept tree) (path : String) :
    kept (tree.makeLastDirectory path).2 := by
  unfold makeLastDirectory ensureDirectory
  cases sound : hasNull path with
  | true => exact holds
  | false =>
    rcases made : tree.makeDirectoryAt path with error | after
    · cases tree.hasDirectory path <;> exact holds
    · exact each tree after path sound made holds

private theorem makeBelow_keeps {above : Except FileFault Unit × FileTree} (holds : kept above.2)
    (path : String) : kept (makeBelow path above).2 := by
  have last : kept
      (if (splitPath path).2 = "." then (.ok (), above.2) else above.2.makeLastDirectory path).2 := by
    split
    · exact holds
    · exact makeLastDirectory_keeps each holds path
  obtain ⟨fault | _, tree⟩ := above
  · cases existing : fault.isExisting with
    | true => simpa only [makeBelow, existing, if_true] using last
    | false => simpa only [makeBelow, existing, Bool.false_eq_true, if_false] using holds
  · exact last

/-- What is kept as one directory is made is kept as all of them are, also when it fails halfway. -/
theorem makeDirectories_keeps {tree : FileTree} (holds : kept tree) (path : String) :
    kept (tree.makeDirectories path).2 := by
  fun_induction makeDirectories tree path with
  | case1 path above last => exact makeLastDirectory_keeps each holds path
  | case2 path above further shorter ih =>
    exact makeBelow_keeps each ih path
  | case3 path above further longer => exact makeLastDirectory_keeps each holds path

end

/-- Making directories does nothing else. -/
theorem makeDirectories_furnishes (tree : FileTree) (path : String) :
    Relation.ReflTransGen Furnishes tree (tree.makeDirectories path).2 :=
  makeDirectories_keeps (fun _ _ _ _ made before => before.tail (makeDirectoryAt_furnishes made))
    .refl path

/-- Making directories changes no entry. -/
theorem makeDirectories_grows (tree : FileTree) (path : String) :
    Grows (fun _ => False) tree (tree.makeDirectories path).2 := by
  have furnished := makeDirectories_furnishes tree path
  generalize (tree.makeDirectories path).2 = after at furnished
  induction furnished with
  | refl => exact .refl tree
  | tail _ furnishes ih =>
    obtain ⟨place, absent, rfl⟩ := furnishes
    exact ih.trans (grows_insert_directory absent)

/-- Every file was there before, or has a new content. -/
def Arises (fresh : ByteArray → Prop) (before after : FileTree) : Prop :=
  ∀ place content, after.get? place = some (.file content) →
    before.get? place = some (.file content) ∨ fresh content

namespace Arises

variable {fresh : ByteArray → Prop} {before middle after : FileTree}

theorem refl (tree : FileTree) : Arises fresh tree tree := fun _ _ found => .inl found

theorem trans (first : Arises fresh before middle) (second : Arises fresh middle after) :
    Arises fresh before after := by
  intro place content found
  rcases second place content found with earlier | new
  · exact first place content earlier
  · exact .inr new

end Arises

private theorem arises_insert {tree : FileTree} {entry : Entry} (nonroot : place ≠ [])
    (new : ∀ content, entry = .file content → fresh content) :
    Arises fresh tree (tree.insert place entry) := by
  intro other content found
  rw [get?_insert nonroot] at found
  split at found
  · exact .inr (new content (Option.some.inj found))
  · exact .inl found

/-- Making directories makes no file. -/
theorem makeDirectories_arises (tree : FileTree) (path : String) :
    Arises fresh tree (tree.makeDirectories path).2 := by
  have furnished := makeDirectories_furnishes tree path
  generalize (tree.makeDirectories path).2 = after at furnished
  induction furnished with
  | refl => exact .refl tree
  | tail _ furnishes ih =>
    obtain ⟨place, absent, rfl⟩ := furnishes
    refine ih.trans (arises_insert ?_ nofun)
    rintro rfl
    cases absent

theorem write_arises {tree after : FileTree} (written : tree.write path content = .ok after)
    (new : fresh content) : Arises fresh tree after := by
  obtain ⟨_, wrote⟩ := writeAt_of_write written
  obtain ⟨target, _, _, _, _, _, _, rfl⟩ := writeAt_eq_ok wrote
  apply arises_insert (by simp)
  rintro _ ⟨⟩
  exact new

end ScriptKit.FileTree
