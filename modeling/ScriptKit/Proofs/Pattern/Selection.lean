import ScriptKit.Pattern.Selection
import ScriptKit.Proofs.FileTree.Descent

/-!
What a pattern selects. A star followed by plain characters fits the names that end in them; and a
pattern of names after two stars selects each entry below a directory, at any depth, whose name fits it,
and selects it once.
-/
namespace ScriptKit

namespace Pattern

/-- Characters without a meaning of their own stand for themselves. -/
theorem wildcards_plain (plain : isWild text = false) : wildcards text = text.map .exactly := by
  induction text with
  | nil => rw [wildcards, List.map_nil]
  | cons char rest ih =>
    obtain ⟨⟨notStar, notAny, notOpen⟩, others⟩ :
        (char ≠ '*' ∧ char ≠ '?' ∧ char ≠ '[') ∧ isWild rest = false := by
      simpa [isWild, and_assoc] using plain
    rw [wildcards.eq_5 _ _ notStar notAny notOpen, ih others, List.map_cons]

private theorem fits_exactly : fits (text.map .exactly) name = true ↔ name = text := by
  induction text generalizing name with
  | nil => cases name <;> simp [fits]
  | cons char rest ih =>
    cases name with
    | nil => simp [fits]
    | cons first others => simp [fits, Wildcard.accepts, ih]

/-- A star stands for anything before what follows it. -/
theorem fits_star : fits (.star :: text.map .exactly) name = true ↔ text <:+ name := by
  induction name with
  | nil => rw [fits, fits_exactly, List.suffix_nil, eq_comm]
  | cons char rest ih =>
    rw [fits, Bool.or_eq_true, fits_exactly, ih, List.suffix_cons_iff]
    exact or_congr_left eq_comm

/-- A search comes to its result unless one of the paths that it looks up is too long: at such a path
it fails. -/
def Searches (tooLong : String → Prop) (outcome : Except Failure α) (result : α) : Prop :=
  ((∀ path, ¬ tooLong path) ∧ outcome = .ok result) ∨
    ∃ path, tooLong path ∧ outcome = .error (.file .nameTooLong path)

namespace Searches

variable {outcome : Except Failure α}

theorem ok (result : α) : Searches (fun _ => False) (.ok result) result :=
  .inl ⟨fun _ => id, rfl⟩

theorem congr (searches : Searches tooLong outcome result)
    (same : ∀ path, tooLong path ↔ tooLong' path) : Searches tooLong' outcome result := by
  rwa [← funext fun path => propext (same path)]

/-- What a search goes on with looks up more paths. -/
theorem bind {next : α → Except Failure β} (searches : Searches tooLong outcome middle)
    (further : Searches tooLong' (next middle) result) :
    Searches (fun path => tooLong path ∨ tooLong' path) (outcome >>= next) result := by
  rcases searches with ⟨short, rfl⟩ | ⟨path, long, rfl⟩
  · rcases further with ⟨short', done⟩ | ⟨path, long, failed⟩
    · exact .inl ⟨fun path => not_or.mpr ⟨short path, short' path⟩, done⟩
    · exact .inr ⟨path, .inr long, failed⟩
  · exact .inr ⟨path, .inl long, rfl⟩

theorem andThen {next : α → Except Failure β} (searches : Searches tooLong outcome middle)
    (done : next middle = .ok result) : Searches tooLong (outcome >>= next) result := by
  have further : Searches (fun _ => False) (next middle) result := done ▸ ok result
  exact Searches.congr (searches.bind further) fun path => by simp

theorem mapM {list : List α} {action : α → Except Failure β} {result : α → β}
    {tooLong : α → String → Prop}
    (each : ∀ item ∈ list, Searches (tooLong item) (action item) (result item)) :
    Searches (fun path => ∃ item ∈ list, tooLong item path) (list.mapM action) (list.map result) := by
  induction list with
  | nil => exact Searches.congr (ok []) fun path => by simp
  | cons item rest ih =>
    obtain ⟨first, each⟩ := List.forall_mem_cons.mp each
    rw [List.mapM_cons]
    exact Searches.congr (first.bind (Searches.andThen (ih each) rfl))
      fun path => by simp

end Searches

/-- The entries of a directory whose names fit. -/
def fitting (tree : FileTree) (pattern : List Wildcard) (place : Location) :
    List (String × Entry) :=
  (tree.children place).filter fun child => fits pattern child.1.toList

/-- The ways from a directory down to the entries whose names fit, at any depth. -/
def fittingBelow (tree : FileTree) (pattern : List Wildcard) (top : Location) : List Location :=
  (tree.directoriesBelow top).flatMap fun way =>
    (fitting tree pattern (top ++ way)).map fun child => way ++ [child.1]

variable {tree : FileTree}

/-- The path that leads down from a directory some way, if it is too long to be looked up. -/
def TooLong (root : String) (way : Location) (path : String) : Prop :=
  path = Path.descend root way ∧ pathLimit < path.utf8ByteSize

/-- A path below a directory leads to what is there, or is too long. -/
theorem look_descend (proper : tree.Proper) (rooted : Path.isAbsolute root = true)
    (directory : tree.hasDirectory root = true)
    (present : tree.get? (FileTree.location root ++ way) = some entry) :
    Searches (TooLong root way)
      (look tree (Path.descend root way)) (some (FileTree.location root ++ way, entry)) := by
  obtain ⟨sound, located⟩ := FileTree.hasDirectory_iff.mp directory
  have clear := FileTree.hasNull_descend sound fun part member =>
    proper.entryName present part (List.mem_append_right _ member)
  have nonempty := Path.ne_empty_of_isAbsolute (Path.isAbsolute_descend rooted way)
  unfold look
  rw [clear]
  by_cases long : pathLimit < (Path.descend root way).utf8ByteSize
  · refine .inr ⟨_, ⟨rfl, long⟩, ?_⟩
    rw [FileTree.locate_of_checkPath (by rw [FileTree.checkPath, if_neg nonempty, if_pos long])]
    rfl
  · refine .inl ⟨?_, ?_⟩
    · rintro _ ⟨rfl, long'⟩
      exact long long'
    · rw [FileTree.locate_descend proper rooted located present (Nat.le_of_not_lt long)]
      rfl

private theorem flatten_choice (list : List α) (kept : α → Bool) (path : α → β) :
    (list.map fun item => if kept item then [path item] else []).flatten =
      (list.filter kept).map path := by
  induction list with
  | nil => rfl
  | cons item rest ih =>
    rw [List.map_cons, List.flatten_cons, ih]
    cases decided : kept item <;> simp [decided]

section
variable {keep : String → Except Failure Bool} (kept : Location → Bool)

/-- A search in one directory looks up its path and those of the entries that fit. -/
theorem select_wild (proper : tree.Proper) (rooted : Path.isAbsolute root = true)
    (directory : tree.hasDirectory root = true)
    (present : tree.get? (FileTree.location root ++ way) = some .directory)
    (decided : ∀ child ∈ fitting tree pattern (FileTree.location root ++ way),
      Searches (TooLong root (way ++ [child.1])) (keep (Path.descend root (way ++ [child.1])))
        (kept (way ++ [child.1]))) :
    Searches (fun path => TooLong root way path ∨
        ∃ child ∈ fitting tree pattern (FileTree.location root ++ way),
          TooLong root (way ++ [child.1]) path)
      (select tree keep [.wild pattern] (Path.descend root way))
      (((fitting tree pattern (FileTree.location root ++ way)).filter
        fun child => kept (way ++ [child.1])).map fun child => Path.descend root (way ++ [child.1])) := by
  have chosen (child : String × Entry)
      (member : child ∈ fitting tree pattern (FileTree.location root ++ way)) :
      Searches (TooLong root (way ++ [child.1]))
        (select tree keep [] (Path.join (Path.descend root way) child.1))
        (if kept (way ++ [child.1]) then [Path.descend root (way ++ [child.1])] else []) := by
    have last : Path.join (Path.descend root way) child.1 = Path.descend root (way ++ [child.1]) :=
      (List.foldl_concat ..).symm
    rw [select, last]
    refine (decided child member).andThen ?_
    cases kept (way ++ [child.1]) <;> rfl
  rw [select, ← flatten_choice]
  exact (look_descend proper rooted directory present).bind
    (Searches.andThen (Searches.mapM chosen) rfl)

/-- A search at any depth does so in every directory. -/
theorem select_deep (proper : tree.Proper) (rooted : Path.isAbsolute root = true)
    (directory : tree.hasDirectory root = true)
    (decided : ∀ way ∈ fittingBelow tree pattern (FileTree.location root),
      Searches (TooLong root way) (keep (Path.descend root way)) (kept way)) :
    Searches (fun path => ∃ way, TooLong root way path ∧
        (tree.get? (FileTree.location root ++ way) = some .directory ∨
          way ∈ fittingBelow tree pattern (FileTree.location root)))
      (select tree keep [.deep, .wild pattern] root)
      (((fittingBelow tree pattern (FileTree.location root)).filter kept).map (Path.descend root)) := by
  have here := (FileTree.locate_eq_ok.mp (FileTree.hasDirectory_iff.mp directory).2).2.2
  have listed {way : Location} := @FileTree.Proper.mem_directoriesBelow tree _ way proper here
  have first : Searches (TooLong root [])
      (look tree root) (some (FileTree.location root, .directory)) := by
    have found := @look_descend tree root [] .directory proper rooted directory (by simpa using here)
    rwa [List.append_nil] at found
  have each (way : Location) (member : way ∈ tree.directoriesBelow (FileTree.location root)) :=
    select_wild kept proper rooted directory (listed.mp member) fun child fit =>
      decided (way ++ [child.1]) (List.mem_flatMap.mpr ⟨way, member, List.mem_map_of_mem fit⟩)
  have result : ((fittingBelow tree pattern (FileTree.location root)).filter kept).map
      (Path.descend root) = ((tree.directoriesBelow (FileTree.location root)).map fun way =>
        ((fitting tree pattern (FileTree.location root ++ way)).filter fun child =>
          kept (way ++ [child.1])).map fun child => Path.descend root (way ++ [child.1])).flatten := by
    rw [fittingBelow, List.filter_flatMap, List.map_flatMap, List.flatMap_def]
    simp only [List.filter_map, List.map_map, Function.comp_def]
  rw [select, result]
  refine Searches.congr (first.bind (Searches.andThen (Searches.mapM each) rfl)) fun path => ?_
  constructor
  · rintro (long | ⟨way, member, long | ⟨child, fit, long⟩⟩)
    · exact ⟨[], long, .inl (by simpa using here)⟩
    · exact ⟨way, long, .inl (listed.mp member)⟩
    · exact ⟨_, long, .inr (List.mem_flatMap.mpr ⟨way, member, List.mem_map_of_mem fit⟩)⟩
  · rintro ⟨way, long, within | within⟩
    · exact .inr ⟨way, listed.mpr within, .inl long⟩
    · obtain ⟨front, member, within⟩ := List.mem_flatMap.mp within
      obtain ⟨child, fit, rfl⟩ := List.mem_map.mp within
      exact .inr ⟨front, member, .inr ⟨child, fit, long⟩⟩

end

/-- What is found below a directory is all there, and nothing else. -/
theorem mem_fittingBelow (proper : tree.Proper) (directory : tree.get? top = some .directory) :
    way ∈ fittingBelow tree pattern top ↔ ∃ front name entry, way = front ++ [name] ∧
      tree.get? (top ++ way) = some entry ∧ fits pattern name.toList = true := by
  simp only [fittingBelow, fitting, List.mem_flatMap, List.mem_map, List.mem_filter]
  constructor
  · rintro ⟨front, _, ⟨name, entry⟩, ⟨listed, fit⟩, rfl⟩
    refine ⟨front, name, entry, rfl, ?_, fit⟩
    rw [← List.append_assoc]
    exact proper.mem_children.mp listed
  · rintro ⟨front, name, entry, rfl, found, fit⟩
    rw [← List.append_assoc] at found
    have above := proper.standing _ name entry found
    exact ⟨front, (proper.mem_directoriesBelow directory).mpr above, (name, entry),
      ⟨proper.mem_children.mpr found, fit⟩, rfl⟩

theorem nodup_fittingBelow (proper : tree.Proper) (pattern : List Wildcard) (top : Location) :
    (fittingBelow tree pattern top).Nodup := by
  rw [fittingBelow, List.nodup_iff_pairwise_ne, List.pairwise_flatMap]
  constructor
  · intro way _
    refine List.pairwise_map.mpr (List.Pairwise.filter _ ?_)
    refine (List.pairwise_map.mp (proper.nodup_children (top ++ way))).imp ?_
    intro one two apart same
    exact apart (List.singleton_inj.mp (List.append_cancel_left same))
  · refine (proper.nodup_directoriesBelow top).imp ?_
    intro one two apart first member second member' same
    obtain ⟨child, _, rfl⟩ := List.mem_map.mp member
    obtain ⟨child', _, rfl⟩ := List.mem_map.mp member'
    exact apart (List.append_inj_left' same rfl)

end Pattern

namespace FileTree

variable {tree : FileTree}

private theorem step_tooLong : tree.step place part = .error .nameTooLong ↔
    tree.get? place = some .directory ∧ Names part ∧ nameLimit < part.utf8ByteSize := by
  rw [← isDirectoryAt_iff, step, Names]
  cases tree.isDirectoryAt place with
  | false => simp
  | true =>
    by_cases dot : part = "" ∨ part = "."
    · grind
    · by_cases up : part = ".." <;> grind

/-- Names are looked up until one is too long, if all before it lead to a directory. -/
theorem walk_tooLong : tree.walk start parts = .error .nameTooLong ↔
    ∃ front name rest place, parts = front ++ name :: rest ∧ tree.walk start front = .ok place ∧
      tree.get? place = some .directory ∧ Names name ∧ nameLimit < name.utf8ByteSize := by
  induction parts generalizing start with
  | nil => exact iff_of_false nofun fun ⟨front, _, _, _, same, _⟩ => by cases front <;> cases same
  | cons part more ih =>
    rw [walk_cons]
    constructor
    · intro failed
      rcases stepped : tree.step start part with error | next
      · rw [stepped] at failed
        cases failed
        exact ⟨[], part, more, start, rfl, rfl, step_tooLong.mp stepped⟩
      · rw [stepped] at failed
        obtain ⟨front, name, rest, place, rfl, walked, stops⟩ := ih.mp failed
        refine ⟨part :: front, name, rest, place, rfl, ?_, stops⟩
        rw [walk_cons, stepped]
        exact walked
    · rintro ⟨_ | ⟨first, front⟩, name, rest, place, same, walked, stops⟩
      · cases same
        cases walked
        rw [step_tooLong.mpr stops]
        rfl
      · cases same
        rw [walk_cons] at walked
        obtain ⟨next, stepped, walked⟩ := bind_eq_ok.mp walked
        rw [stepped]
        exact ih.mpr ⟨front, name, rest, place, rfl, walked, stops⟩

/-- A path that cannot be looked up: it is too long, or it leads to a directory and on by a name that is
longer than those of entries. -/
def Unnameable (tree : FileTree) (path : String) : Prop :=
  hasNull path = false ∧ (pathLimit < path.utf8ByteSize ∨
    ∃ front name rest place, pathParts path = front ++ name :: rest ∧
      tree.walk [] front = .ok place ∧ tree.get? place = some .directory ∧ Names name ∧
      nameLimit < name.utf8ByteSize)

private theorem locate_tooLong : tree.locate path = .error .nameTooLong ↔
    pathLimit < path.utf8ByteSize ∨ tree.walk [] (pathParts path) = .error .nameTooLong := by
  constructor
  · intro failed
    rcases walk_of_locate_error failed nofun with barred | ⟨_, walked⟩
    · unfold checkPath at barred
      split at barred
      · cases barred
      · split at barred
        · exact .inl ‹_›
        · cases barred
    · exact .inr walked
  · intro long
    by_cases empty : path = ""
    · subst empty
      rcases long with long | walked
      · exact absurd long (by decide)
      · cases walked
    rcases checkPath_cases empty with usable | barred
    · rcases long with long | walked
      · exact absurd usable.2 (Nat.not_le.mpr long)
      · exact locate_of_walk_error usable walked
    · exact locate_of_checkPath barred

private theorem unnameable_iff :
    tree.Unnameable path ↔ hasNull path = false ∧ tree.locate path = .error .nameTooLong := by
  rw [Unnameable, locate_tooLong, walk_tooLong]

theorem Unnameable.hasDirectory (barred : tree.Unnameable path) : tree.hasDirectory path = false := by
  rw [FileTree.hasDirectory, entryAt?, (unnameable_iff.mp barred).2]
  split <;> rfl

instance (tree : FileTree) (path : String) : Decidable (tree.Unnameable path) :=
  decidable_of_iff _ unnameable_iff.symm

end FileTree

/-- A directory is found if it is there. -/
theorem Pattern.found_directory (tree : FileTree) (path : String) :
    Searches (fun other => other = path ∧ tree.Unnameable path) (found tree Entry.isDirectory path)
      (tree.hasDirectory path) := by
  by_cases long : tree.Unnameable path
  · refine .inr ⟨path, ⟨rfl, long⟩, ?_⟩
    obtain ⟨sound, failed⟩ := FileTree.unnameable_iff.mp long
    rw [found, look, sound, failed]
    rfl
  refine .inl ⟨fun _ other => long other.2, ?_⟩
  rw [FileTree.unnameable_iff] at long
  rw [found, look, FileTree.hasDirectory, FileTree.entryAt?]
  cases sound : FileTree.hasNull path with
  | true => rfl
  | false =>
    rcases located : tree.locate path with error | ⟨place, entry⟩
    · cases error with
      | nameTooLong => exact absurd ⟨sound, located⟩ long
      | _ => rfl
    · rfl

end ScriptKit
