import Mathlib.Algebra.GroupWithZero.Nat
import ScriptKit.Proofs.FileTree.Growth
import ScriptKit.Proofs.Path.Normal

/-!
Looking up normal paths. They lead straight down, so what is above a file is a directory, and no more
than two of them name one entry. As files are written, whatever is found at such a path stays the
same, and so does every reason for finding nothing but the one that nothing is there.
-/
namespace ScriptKit.FileTree

theorem names_ofList (named : Path.Name name) : Names (String.ofList name) := by
  have spelled {text : String} (same : String.ofList name = text) : name = text.toList := by
    rw [← same, String.toList_ofList]
  refine ⟨fun same => named.nonempty (spelled same), fun same => named.notDot (spelled same), ?_⟩
  intro same
  have up := named.notUp
  rw [spelled same] at up
  cases up

theorem names_map_ofList {list : List (List Char)} (named : ∀ name ∈ list, Path.Name name) :
    ∀ part ∈ list.map String.ofList, Names part := by
  intro part member
  obtain ⟨name, listed, rfl⟩ := List.mem_map.mp member
  exact names_ofList (named name listed)

private theorem pathParts_normal (normal : Path.Normal path slashes list) :
    pathParts path = List.replicate slashes "" ++
      if list = [] then [""] else list.map String.ofList := by
  rw [pathParts, normal.spelled, Path.parts_slashes, List.map_append, List.map_replicate]
  refine congrArg (_ ++ ·) ?_
  split
  · rename_i empty
    subst empty
    rfl
  · rename_i nonempty
    rw [Path.parts_joinParts normal.named nonempty]

theorem walk_blank (tree : FileTree) (parts : List String) :
    tree.walk [] ("" :: parts) = tree.walk [] parts := by
  rw [walk, isDirectoryAt_iff.mpr tree.get?_root]
  rfl

theorem walk_normal (tree : FileTree) (normal : Path.Normal path slashes list) :
    tree.walk [] (pathParts path) = tree.walk [] (list.map String.ofList) := by
  have rest : tree.walk [] (if list = [] then [""] else list.map String.ofList) =
      tree.walk [] (list.map String.ofList) := by
    split
    · rename_i empty
      subst empty
      exact walk_blank tree []
    · rfl
  rw [pathParts_normal normal]
  rcases normal.start with rfl | rfl
  · exact (walk_blank tree _).trans rest
  · exact (walk_blank tree _).trans ((walk_blank tree _).trans rest)

theorem follow_names (place : Location) (named : ∀ part ∈ parts, Names part) :
    follow place parts = place ++ parts := by
  induction parts generalizing place with
  | nil => exact (List.append_nil place).symm
  | cons part rest ih =>
    obtain ⟨nonempty, notDot, notUp⟩ := named part List.mem_cons_self
    have first : advance place part = place ++ [part] := by simp [advance, nonempty, notDot, notUp]
    have following := ih (advance place part)
      fun other member => named other (List.mem_cons_of_mem part member)
    rw [first, List.append_assoc] at following
    rw [follow, List.foldl_cons, first]
    exact following

theorem location_normal (normal : Path.Normal path slashes list) :
    location path = list.map String.ofList := by
  have rest : follow [] (if list = [] then [""] else list.map String.ofList) =
      list.map String.ofList := by
    split
    · rename_i empty
      subst empty
      rfl
    · exact follow_names [] (names_map_ofList normal.named)
  rw [location, pathParts_normal normal]
  rcases normal.start with rfl | rfl <;> exact rest

/-- A path is as long as its parts, with a slash between any two of them. -/
theorem utf8ByteSize_pathParts (path : String) :
    ((pathParts path).map (·.utf8ByteSize + 1)).sum = path.utf8ByteSize + 1 := by
  have chars (text : List Char) :
      (((Path.parts text).map String.ofList).map (·.utf8ByteSize + 1)).sum =
        (String.ofList text).utf8ByteSize + 1 := by
    induction text with
    | nil => rfl
    | cons char rest ih =>
      rw [Path.parts, String.ofList_cons, String.utf8ByteSize_append, String.utf8ByteSize_singleton]
      rcases parts : Path.parts rest with _ | ⟨first, others⟩
      · exact absurd parts (Path.parts_ne_nil rest)
      rw [parts] at ih
      dsimp only
      split
      · rename_i slash
        subst slash
        have one : Char.utf8Size '/' = 1 := by decide
        rw [List.map_cons, List.map_cons, List.sum_cons, ih, one,
          String.ofList_nil, String.utf8ByteSize_empty]
        omega
      · simp only [List.map_cons, List.sum_cons, String.ofList_cons, String.utf8ByteSize_append,
          String.utf8ByteSize_singleton] at ih ⊢
        omega
  have whole := chars path.toList
  rwa [String.ofList_toList] at whole

theorem usable_of_parts (nonempty : path ≠ "")
    (short : ((pathParts path).map (·.utf8ByteSize + 1)).sum ≤ pathLimit + 1) : Usable path := by
  rw [utf8ByteSize_pathParts] at short
  exact ⟨nonempty, Nat.le_of_succ_le_succ short⟩

theorem locate_of_walk_error {tree : FileTree} (usable : Usable path)
    (failed : tree.walk [] (pathParts path) = .error error) : tree.locate path = .error error := by
  unfold locate
  rw [checkPath_usable usable, failed]
  rfl

theorem locate_of_checkPath {tree : FileTree} (barred : checkPath path = .error error) :
    tree.locate path = .error error := by
  unfold locate
  rw [barred]
  rfl

theorem walk_of_locate_error {tree : FileTree} (failed : tree.locate path = .error error)
    (present : error ≠ .notFound) :
    checkPath path = .error error ∨
      Usable path ∧ tree.walk [] (pathParts path) = .error error := by
  unfold locate at failed
  rcases checked : checkPath path with barred | _
  · rw [checked] at failed
    cases failed
    exact .inl rfl
  rw [checked] at failed
  rcases walked : tree.walk [] (pathParts path) with error' | reached
  · rw [walked] at failed
    cases failed
    exact .inr ⟨usable_of_checkPath checked, rfl⟩
  · rw [walked] at failed
    cases found : tree.get? reached with
    | none =>
      simp only [bind, Except.bind, found] at failed
      cases failed
      exact absurd rfl present
    | some entry =>
      simp only [bind, Except.bind, found] at failed
      cases failed

/-- The path of an entry right below the root, with the name of the entry. -/
def Shallow (path name : String) : Prop :=
  Path.isAbsolute path = true ∧ hasNull path = false ∧ pathParts path = ["", name] ∧ Names name ∧
    name.utf8ByteSize ≤ nameLimit

instance (path name : String) : Decidable (Shallow path name) :=
  inferInstanceAs (Decidable (_ ∧ _))

private theorem step_congr {one two : FileTree} (here : one.get? place = two.get? place)
    (next : one.get? (advance place part) = two.get? (advance place part)) :
    one.step place part = two.step place part := by
  unfold advance at next
  unfold step isDirectoryAt
  rw [here]
  split
  · rfl
  split
  · rfl
  rename_i named
  split
  · rfl
  rename_i notUp
  rw [if_neg named, if_neg notUp] at next
  rw [next]

private theorem walk_congr {one two : FileTree}
    (same : ∀ list, list <+: parts → one.get? (follow place list) = two.get? (follow place list)) :
    one.walk place parts = two.walk place parts := by
  induction parts generalizing place with
  | nil => rfl
  | cons part rest ih =>
    have stepping : one.step place part = two.step place part :=
      step_congr (same [] List.nil_prefix) (same [part] ⟨rest, rfl⟩)
    rw [walk_cons, walk_cons, stepping]
    rcases stepped : two.step place part with error | next
    · rfl
    · obtain ⟨_, rfl, _⟩ := step_eq_ok.mp stepped
      apply ih
      intro list within
      exact same (part :: list) (List.cons_prefix_cons.mpr ⟨rfl, within⟩)

/-- What is read depends on no place that the path does not lead through. -/
theorem read_congr {one two : FileTree} (same : ∀ list, list <+: pathParts path →
      one.get? (follow [] list) = two.get? (follow [] list)) :
    one.read path = two.read path := by
  have located : one.locate path = two.locate path := by
    unfold locate
    rw [walk_congr same]
    rcases walked : two.walk [] (pathParts path) with error | place
    · rfl
    · obtain rfl := walk_eq_follow walked
      simp only [bind, Except.bind, same (pathParts path) List.prefix_rfl]
  rw [read, read, located]

/-- For a normal path these places are the ones above its own. -/
theorem follow_normal (normal : Path.Normal path slashes list) (within : parts <+: pathParts path) :
    follow [] parts <+: location path := by
  have straight : ∀ part ∈ pathParts path, part ≠ ".." := by
    intro part member
    rw [pathParts_normal normal] at member
    rcases List.mem_append.mp member with blank | member
    · rw [(List.mem_replicate.mp blank).2]
      decide
    · split at member
      · rw [List.mem_singleton.mp member]
        decide
      · exact (names_map_ofList normal.named part member).2.2
  have further (place : Location) {more : List String} (straight : ∀ part ∈ more, part ≠ "..") :
      place <+: follow place more := by
    induction more generalizing place with
    | nil => exact List.prefix_rfl
    | cons part rest ih =>
      obtain ⟨first, straight⟩ := List.forall_mem_cons.mp straight
      refine List.IsPrefix.trans ?_ (ih (advance place part) straight)
      unfold advance
      split
      · exact List.prefix_rfl
      · exact List.prefix_append place [part]
  obtain ⟨rest, whole⟩ := within
  rw [location, ← whole, follow_append]
  apply further
  intro part member
  exact straight part (whole ▸ List.mem_append_right parts member)

/-- What is read right below the root depends on no other place. -/
theorem Shallow.read_congr {one two : FileTree} (shallow : Shallow path name)
    (same : one.get? [name] = two.get? [name]) : one.read path = two.read path := by
  obtain ⟨_, _, parts, ⟨nonempty, notDot, notUp⟩, _⟩ := shallow
  apply FileTree.read_congr
  intro list within
  rw [parts, List.prefix_cons_iff] at within
  rcases within with rfl | ⟨list, rfl, within⟩
  · exact one.get?_root.trans two.get?_root.symm
  · rw [List.prefix_cons_iff] at within
    rcases within with rfl | ⟨list, rfl, within⟩
    · exact one.get?_root.trans two.get?_root.symm
    · rw [List.prefix_nil.mp within]
      simpa [follow, advance, nonempty, notDot, notUp] using same

theorem Shallow.usable (shallow : Shallow path name) : Usable path := by
  obtain ⟨_, _, parts, _, short⟩ := shallow
  refine usable_of_parts ?_ ?_
  · rintro rfl
    cases parts
  · rw [parts]
    simp only [nameLimit, pathLimit, List.map_cons, List.map_nil, List.sum_cons, List.sum_nil,
      String.utf8ByteSize_empty] at short ⊢
    omega

theorem Shallow.location (shallow : Shallow path name) : location path = [name] := by
  obtain ⟨_, _, parts, ⟨nonempty, notDot, notUp⟩, _⟩ := shallow
  simp [FileTree.location, parts, follow, advance, nonempty, notDot, notUp]

theorem Shallow.read {tree : FileTree} (shallow : Shallow path name)
    (found : tree.get? [name] = some (.file content)) : tree.read path = .ok content := by
  have place := shallow.location
  have usable := shallow.usable
  obtain ⟨_, sound, parts, ⟨nonempty, notDot, notUp⟩, short⟩ := shallow
  refine read_eq_ok.mpr ⟨sound, locate_eq_ok.mpr ⟨usable, ?_, place ▸ found⟩⟩
  rw [place, parts, walk_blank]
  simp [walk, isDirectoryAt, Entry.isDirectory, nonempty, notDot, notUp, found, Nat.not_lt.mpr short]

private theorem step_eq_error {tree : FileTree} (named : Names part)
    (failed : tree.step place part = .error error) (present : error ≠ .notFound) :
    (error = .notDirectory ∧ tree.get? place ≠ some .directory) ∨
      (error = .nameTooLong ∧ tree.get? place = some .directory ∧ nameLimit < part.utf8ByteSize) := by
  obtain ⟨nonempty, notDot, notUp⟩ := named
  unfold step at failed
  by_cases directory : tree.isDirectoryAt place = true
  · simp only [directory, nonempty, notDot, notUp, Bool.not_true, Bool.false_eq_true, if_false,
      or_self] at failed
    split at failed
    · cases failed
      rename_i long
      exact .inr ⟨rfl, isDirectoryAt_iff.mp directory, long⟩
    · split at failed
      · cases failed
        exact absurd rfl present
      · cases failed
  · simp only [directory, Bool.not_false, if_true] at failed
    cases failed
    exact .inl ⟨rfl, fun found => directory (isDirectoryAt_iff.mpr found)⟩

namespace Grows

variable {changing : Location → Prop} {before after : FileTree}

theorem step_error (grows : Grows changing before after) (named : Names part)
    (found : before.get? place = some entry) (failed : before.step place part = .error error)
    (present : error ≠ .notFound) : after.step place part = .error error := by
  rcases step_eq_error named failed present with ⟨rfl, notDirectory⟩ | ⟨rfl, directory, long⟩
  · have isFile : ∃ content, entry = .file content := by
      cases entry with
      | file content => exact ⟨content, rfl⟩
      | directory => exact absurd found notDirectory
    obtain ⟨content, rfl⟩ := isFile
    obtain ⟨content', now⟩ := grows.file found
    have still : after.isDirectoryAt place = false := by
      rw [isDirectoryAt, now]
      rfl
    simp [FileTree.step, still]
  · have now := isDirectoryAt_iff.mpr (grows.directory directory)
    obtain ⟨nonempty, notDot, notUp⟩ := named
    simp [FileTree.step, now, nonempty, notDot, notUp, long]

/-- Names that lead nowhere for another reason than a missing entry do so ever after. -/
theorem walk_error (grows : Grows changing before after) (named : ∀ part ∈ parts, Names part)
    (found : before.get? start = some entry) (failed : before.walk start parts = .error error)
    (present : error ≠ .notFound) : after.walk start parts = .error error := by
  induction parts generalizing start entry with
  | nil => cases failed
  | cons part rest ih =>
    have first := named part List.mem_cons_self
    rw [walk_cons] at failed ⊢
    rcases stepped : before.step start part with error' | next
    · rw [stepped] at failed
      cases failed
      rw [grows.step_error first found stepped present]
      rfl
    · rw [stepped] at failed
      rw [grows.step stepped]
      obtain ⟨_, _, arrived⟩ := step_eq_ok.mp stepped
      obtain ⟨_, _, found'⟩ := arrived first
      exact ih (fun other member => named other (List.mem_cons_of_mem part member))
        found' failed

theorem locate_error (grows : Grows changing before after) (normal : Path.Normal path slashes list)
    (located : before.locate path = .error error) (present : error ≠ .notFound) :
    after.locate path = .error error := by
  rcases walk_of_locate_error located present with barred | ⟨usable, failed⟩
  · exact locate_of_checkPath barred
  rw [walk_normal before normal] at failed
  have same := grows.walk_error (names_map_ofList normal.named) before.get?_root failed present
  rw [← walk_normal after normal] at same
  exact locate_of_walk_error usable same

/-- What reading a normal path gives stays the same, if its file does not change and it is not
missing. -/
theorem read_normal (grows : Grows changing before after) (normal : Path.Normal path slashes list)
    (still : ¬ changing (location path))
    (present : before.read path ≠ .error (.failed .notFound path)) :
    after.read path = before.read path := by
  unfold FileTree.read at present ⊢
  cases null : hasNull path with
  | true => rfl
  | false =>
    rw [null] at present
    rcases located : before.locate path with error | ⟨place, entry⟩
    · simp only [located, Bool.false_eq_true, if_false] at present
      have other : error ≠ .notFound := by
        rintro rfl
        exact present rfl
      rw [grows.locate_error normal located other]
    · have found := (locate_eq_ok.mp located).2.2
      rw [← place_of_locate located] at still
      rw [grows.locate located (grows.kept still found)]

/-- A normal path at which something is does not get missing. -/
theorem read_present (grows : Grows changing before after) (normal : Path.Normal path slashes list)
    (present : before.read path ≠ .error (.failed .notFound path)) :
    after.read path ≠ .error (.failed .notFound path) := by
  unfold FileTree.read at present ⊢
  cases null : hasNull path with
  | true =>
    rw [null] at present
    exact present
  | false =>
    rw [null] at present
    rcases located : before.locate path with error | ⟨place, entry⟩
    · simp only [located, Bool.false_eq_true, if_false] at present
      have other : error ≠ .notFound := by
        rintro rfl
        exact present rfl
      simpa only [grows.locate_error normal located other, Bool.false_eq_true, if_false] using present
    · obtain ⟨entry', now⟩ := grows.present (locate_eq_ok.mp located).2.2
      rw [grows.locate located now]
      cases entry' with
      | file content => exact nofun
      | directory => exact nofun

end Grows

/-- Above a file there are directories. -/
theorem directory_above {tree : FileTree} (normal : Path.Normal path slashes (before ++ [name]))
    (found : tree.locate path = .ok (place, entry)) (above : list <+: before) :
    tree.get? (list.map String.ofList) = some .directory := by
  obtain ⟨rest, rfl⟩ := above
  have walked := (locate_eq_ok.mp found).2.1
  rw [walk_normal tree normal, List.append_assoc, List.map_append, walk_append] at walked
  obtain ⟨reached, walked, further⟩ := bind_eq_ok.mp walked
  have named : ∀ part ∈ list.map String.ofList, Names part := by
    refine names_map_ofList fun name member => normal.named name ?_
    exact List.mem_append_left _ (List.mem_append_left _ member)
  have arrived := walk_eq_follow walked
  rw [follow_names [] named, List.nil_append] at arrived
  subst arrived
  obtain ⟨part, parts, same⟩ : ∃ part parts, (rest ++ [name]).map String.ofList = part :: parts :=
    List.exists_cons_of_ne_nil (by simp)
  rw [same, walk_cons] at further
  obtain ⟨next, stepped, _⟩ := bind_eq_ok.mp further
  exact (step_eq_ok.mp stepped).1

theorem mem_of_get?_file {tree : FileTree} (present : tree.get? place = some (.file content)) :
    place ∈ tree.entries.map Prod.fst := by
  unfold get? at present
  split at present
  · cases present
  · obtain ⟨before, after, same, _⟩ := List.lookup_eq_some_iff.mp present
    rw [same]
    simp

private theorem location_mem {tree : FileTree} (found : tree.read path = .ok content) :
    location path ∈ tree.entries.map Prod.fst :=
  mem_of_get?_file (locate_eq_ok.mp (read_eq_ok.mp found).2).2.2

/-- A tree has no more than two normal paths for each of its entries. -/
theorem length_le_of_located {tree : FileTree} {paths : List String} (distinct : paths.Nodup)
    (normal : ∀ path ∈ paths, ∃ slashes list, Path.Normal path slashes list)
    (located : ∀ path ∈ paths, location path ∈ tree.entries.map Prod.fst) :
    paths.length ≤ 2 * tree.entries.length := by
  let key (path : String) : Nat × Location := (Path.leadingSlashes path.toList, location path)
  have keys : (paths.map key).Nodup := by
    refine List.pairwise_map.mpr (distinct.imp_of_mem ?_)
    intro path other member member' apart same
    obtain ⟨slashes, list, one⟩ := normal path member
    obtain ⟨slashes', list', two⟩ := normal other member'
    obtain ⟨sameSlashes, samePlace⟩ := Prod.mk.inj same
    rw [one.leadingSlashes, two.leadingSlashes] at sameSlashes
    rw [location_normal one, location_normal two] at samePlace
    have sameNames : list = list' :=
      (List.map_inj_right fun _ _ same => String.ofList_injective same).mp samePlace
    subst sameSlashes sameNames
    exact apart (one.unique two)
  have within : paths.map key ⊆
      (tree.entries.map Prod.fst).map ((1, ·)) ++ (tree.entries.map Prod.fst).map ((2, ·)) := by
    intro pair member
    obtain ⟨path, listed, rfl⟩ := List.mem_map.mp member
    obtain ⟨slashes, list, one⟩ := normal path listed
    have place := located path listed
    have slashesOne : Path.leadingSlashes path.toList = 1 ∨ Path.leadingSlashes path.toList = 2 :=
      one.leadingSlashes.symm ▸ one.start
    rcases slashesOne with same | same
    · exact List.mem_append_left _ (List.mem_map.mpr ⟨_, place, by rw [← same]⟩)
    · exact List.mem_append_right _ (List.mem_map.mpr ⟨_, place, by rw [← same]⟩)
  have bound := keys.length_le_of_subset within
  simp only [List.length_map, List.length_append] at bound
  omega

theorem length_le_of_normal {tree : FileTree} {paths : List String} (distinct : paths.Nodup)
    (normal : ∀ path ∈ paths, ∃ slashes list, Path.Normal path slashes list)
    (found : ∀ path ∈ paths, ∃ content, tree.read path = .ok content) :
    paths.length ≤ 2 * tree.entries.length := by
  apply length_le_of_located distinct normal
  intro path member
  obtain ⟨content, read⟩ := found path member
  exact location_mem read

end ScriptKit.FileTree
