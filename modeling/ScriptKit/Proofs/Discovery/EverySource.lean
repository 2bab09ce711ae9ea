import ScriptKit.Discovery
import ScriptKit.Proofs.Path.Relative
import ScriptKit.Proofs.Pattern.Selection
import ScriptKit.Proofs.Text.Sorting

/-!
The entries of a project that names none. The pattern that is there by default and no pattern at all
lead to the same ones: all source files at any depth below the source directory, by their absolute
paths and in ascending order. A path on the way that is too long to be looked up makes both fail.
-/
namespace ScriptKit.Discovery

/-- A name that ends in the extension of source files and has something before it. -/
def SourceName (name : String) : Prop :=
  ∃ stem, stem ≠ "" ∧ name = stem ++ defaultSourceExtension

/-- The absolute path of a source file at any depth below a directory. It has the names on the way to
the file from the root of the tree, after the slashes of the path to the directory. -/
def SourceBelow (tree : FileTree) (root path : String) : Prop :=
  tree.hasDirectory root = true ∧ ∃ way name content, SourceName name ∧
    tree.get? (FileTree.location root ++ (way ++ [name])) = some (.file content) ∧
    Path.Normal path (Path.leadingSlashes root.toList)
      ((FileTree.location root ++ (way ++ [name])).map String.toList)

/-- A path that the search for source files below a directory comes to and cannot look up: that of the
directory itself, of a directory below it, or of an entry below it that is called like a source file. -/
inductive OutOfReach (tree : FileTree) (root : String) : String → Prop
  | root (barred : tree.Unnameable root) : OutOfReach tree root root
  | directory (present : tree.hasDirectory root = true)
      (found : tree.get? (FileTree.location root ++ way) = some .directory)
      (long : pathLimit < (Path.descend root way).utf8ByteSize) :
      OutOfReach tree root (Path.descend root way)
  | entry (present : tree.hasDirectory root = true)
      (found : tree.get? (FileTree.location root ++ (way ++ [name])) = some entry)
      (called : defaultSourceExtension.toList <:+ name.toList)
      (long : pathLimit < (Path.descend root (way ++ [name])).utf8ByteSize) :
      OutOfReach tree root (Path.descend root (way ++ [name]))

theorem SourceName.suffix (source : SourceName name) :
    defaultSourceExtension.toList <:+ name.toList := by
  obtain ⟨stem, _, rfl⟩ := source
  exact ⟨stem.toList, String.toList_append.symm⟩

private theorem isSourceName_iff : isSourceName path = true ↔ SourceName (Path.baseName path) := by
  simp only [isSourceName, Bool.and_eq_true, decide_eq_true_eq, List.isSuffixOf_iff_suffix]
  constructor
  · rintro ⟨longer, stem, same⟩
    refine ⟨String.ofList stem, ?_, ?_⟩
    · intro empty
      have none : stem = [] := by simpa [← String.toList_inj] using empty
      rw [none, List.nil_append] at same
      exact absurd longer (by rw [same]; exact Nat.lt_irrefl _)
    · apply String.toList_injective
      rw [String.toList_append, String.toList_ofList, same]
  · intro source
    refine ⟨?_, source.suffix⟩
    obtain ⟨stem, nonempty, same⟩ := source
    have present : 0 < stem.toList.length :=
      List.length_pos_iff.mpr (mt String.toList_eq_nil_iff.mp nonempty)
    rw [same, String.toList_append, List.length_append]
    omega

private theorem everySource_eq :
    everySource = [.deep, .wild (.star :: defaultSourceExtension.toList.map .exactly)] := by
  have star : "*.as".toList = '*' :: defaultSourceExtension.toList := rfl
  rw [everySource, star, Pattern.wildcards, Pattern.wildcards_plain (by decide)]

private theorem parse_everySource : Pattern.parse "**/*.as" = .ok everySource := rfl

section
variable {tree : FileTree}

private theorem baseName_descend (rooted : Path.isAbsolute root = true)
    (named : FileTree.EntryName name) :
    Path.baseName (Path.descend root (way ++ [name])) = name := by
  obtain ⟨front, _, joined⟩ := Path.join_relative (Path.isAbsolute_descend rooted way)
  have last : Path.descend root (way ++ [name]) = Path.join (Path.descend root way) name :=
    List.foldl_concat ..
  rw [last, Path.baseName, joined name (Path.isAbsolute_name named.toName),
    (Path.baseChars_append named.toName.single front).1, String.ofList_toList]

/-- Whether there is a source file some way below a directory. -/
def isSourceAt (tree : FileTree) (root : String) (way : Location) : Bool :=
  (tree.get? (FileTree.location root ++ way)).any (fun entry => !entry.isDirectory) &&
    isSourceName (Path.descend root way)

private theorem isSource_descend (proper : tree.Proper) (rooted : Path.isAbsolute root = true)
    (directory : tree.hasDirectory root = true)
    (found : tree.get? (FileTree.location root ++ way) = some entry) :
    Pattern.Searches (Pattern.TooLong root way) (isSource tree (Path.descend root way))
      (isSourceAt tree root way) := by
  have file : Pattern.Searches (Pattern.TooLong root way)
      (Pattern.found tree (fun entry => !entry.isDirectory) (Path.descend root way))
      (!entry.isDirectory) := by
    rw [Pattern.found]
    refine (Pattern.look_descend proper rooted directory found).andThen ?_
    rfl
  rw [isSourceAt, found, isSource]
  refine file.andThen ?_
  rfl

/-- Of what is below a directory, the source files are told by their entries and their names. -/
theorem isSourceAt_iff (proper : tree.Proper) (rooted : Path.isAbsolute root = true)
    (found : tree.get? (FileTree.location root ++ (way ++ [name])) = some entry) :
    isSourceAt tree root (way ++ [name]) = true ↔
      (∃ content, entry = .file content) ∧ SourceName name := by
  have named := proper.entryName found name (by simp)
  rw [isSourceAt, found, Bool.and_eq_true, isSourceName_iff, baseName_descend rooted named]
  cases entry with
  | file content => simp [Entry.isDirectory]
  | directory => simp [Entry.isDirectory]

/-- The paths below a directory that are too long to be looked up are those that the search for all
source files meets. -/
theorem outOfReach_iff (proper : tree.Proper) (directory : tree.hasDirectory root = true) :
    OutOfReach tree root path ↔ ∃ way, Pattern.TooLong root way path ∧
      (tree.get? (FileTree.location root ++ way) = some .directory ∨ way ∈ Pattern.fittingBelow tree
        (.star :: defaultSourceExtension.toList.map .exactly) (FileTree.location root)) := by
  obtain ⟨_, located⟩ := FileTree.hasDirectory_iff.mp directory
  have here := (FileTree.locate_eq_ok.mp located).2.2
  constructor
  · rintro (barred | ⟨_, found, long⟩ | ⟨_, found, called, long⟩)
    · rw [barred.hasDirectory] at directory
      cases directory
    · exact ⟨_, ⟨rfl, long⟩, .inl found⟩
    · exact ⟨_, ⟨rfl, long⟩, .inr ((Pattern.mem_fittingBelow proper here).mpr
        ⟨_, _, _, rfl, found, Pattern.fits_star.mpr called⟩)⟩
  · rintro ⟨way, ⟨rfl, long⟩, found | member⟩
    · exact .directory directory found long
    · obtain ⟨front, name, entry, rfl, found, fit⟩ := (Pattern.mem_fittingBelow proper here).mp member
      exact .entry directory found (Pattern.fits_star.mp fit) long

/-- The scan for all source files finds each of them once. -/
theorem matched_everySource (proper : tree.Proper) (rooted : Path.isAbsolute root = true)
    (directory : tree.hasDirectory root = true) :
    ∃ paths, Pattern.Searches (OutOfReach tree root) (matched tree root everySource) paths ∧
      paths.Nodup ∧ ∀ path, path ∈ paths ↔ SourceBelow tree root path := by
  obtain ⟨_, located⟩ := FileTree.hasDirectory_iff.mp directory
  have here := (FileTree.locate_eq_ok.mp located).2.2
  have normal {way : Location} {entry : Entry}
      (found : tree.get? (FileTree.location root ++ way) = some entry) :=
    FileTree.normal_descend rooted fun part member =>
      proper.entryName found part (List.mem_append_right _ member)
  have decided (way : Location) (member : way ∈ Pattern.fittingBelow tree
      (.star :: defaultSourceExtension.toList.map .exactly) (FileTree.location root)) :
      Pattern.Searches (Pattern.TooLong root way) (isSource tree (Path.descend root way))
        (isSourceAt tree root way) := by
    obtain ⟨_, _, _, _, found, _⟩ := (Pattern.mem_fittingBelow proper here).mp member
    exact isSource_descend proper rooted directory found
  have selected := Pattern.select_deep (isSourceAt tree root) proper rooted directory decided
  have scanned := selected.congr fun path => (outOfReach_iff proper directory).symm
  rw [← everySource_eq] at scanned
  refine ⟨_, scanned.andThen rfl, ?_, ?_⟩
  -- A path tells the names on the way to its file, so no two ways below the root have one path.
  · rw [List.map_map]
    refine List.Nodup.map_on ?_ ((Pattern.nodup_fittingBelow proper _ _).filter _)
    intro one member two member' same
    obtain ⟨_, _, _, _, found, _⟩ :=
      (Pattern.mem_fittingBelow proper here).mp (List.mem_of_mem_filter member)
    obtain ⟨_, _, _, _, found', _⟩ :=
      (Pattern.mem_fittingBelow proper here).mp (List.mem_of_mem_filter member')
    have names := (normal found).names_eq
    rw [show Path.absolute "/" (Path.descend root one) = Path.absolute "/" (Path.descend root two)
      from same, (normal found').names_eq] at names
    have places := (List.map_inj_right fun _ _ same => String.toList_injective same).mp names
    exact (List.append_cancel_left places).symm
  · intro path
    simp only [List.mem_map, List.mem_filter]
    constructor
    · rintro ⟨_, ⟨way, ⟨member, source⟩, rfl⟩, rfl⟩
      obtain ⟨front, name, entry, rfl, found, _⟩ := (Pattern.mem_fittingBelow proper here).mp member
      obtain ⟨⟨content, rfl⟩, named⟩ := (isSourceAt_iff proper rooted found).mp source
      exact ⟨directory, front, name, content, named, found, normal found⟩
    · rintro ⟨_, front, name, content, named, found, spelled⟩
      have member := (Pattern.mem_fittingBelow proper here).mpr
        ⟨front, name, _, rfl, found, Pattern.fits_star.mpr named.suffix⟩
      have source := (isSourceAt_iff proper rooted found).mpr ⟨⟨content, rfl⟩, named⟩
      exact ⟨_, ⟨_, ⟨member, source⟩, rfl⟩, (normal found).unique spelled⟩

private theorem isAbsolute_sourceRoot (rooted : Path.isAbsolute projectRoot = true)
    (config : Config) :
    Path.isAbsolute (sourceRoot config projectRoot) = true := by
  have joined := Path.isAbsolute_join rooted config.rootDir
  rw [sourceRoot, Path.tidy, Path.isAbsolute, String.toList_ofList]
  rcases Path.leadingSlashes_cases (eq_of_beq joined) with one | two
  · rw [one]
    rfl
  · rw [two]
    rfl

private theorem sortedUnique_eq (distinct : paths.Nodup) : sortedUnique paths = sorted paths :=
  eraseDups_of_nodup ((List.mergeSort_perm _ _).nodup_iff.mpr distinct)

private theorem matchedAll_default (tree : FileTree) (root : String) :
    matchedAll tree root Config.default.patterns = matched tree root everySource := by
  rw [show Config.default.patterns = ["**/*.as"] from rfl, matchedAll, parse_everySource]
  simp only [matchedAll, Except.mapError, bind, Except.bind, pure, Except.pure, List.append_nil]
  cases matched tree root everySource <;> rfl

/-- Both ways of finding source files come to the same, though only one looks for repetitions. -/
theorem below_everySource (proper : tree.Proper) (rooted : Path.isAbsolute root = true)
    (config : Config) :
    below tree { config with patterns := Config.default.patterns } root =
        below tree { config with patterns := [] } root ∧
      ∃ found, Pattern.Searches (OutOfReach tree root)
          (below tree { config with patterns := [] } root) found ∧
        found.Pairwise (· < ·) ∧ ∀ path, path ∈ found ↔ SourceBelow tree root path := by
  unfold below
  rcases Pattern.found_directory tree root with ⟨findable, found⟩ | ⟨_, ⟨rfl, barred⟩, failed⟩
  swap
  · rw [failed]
    refine ⟨rfl, [], .inr ⟨_, .root barred, rfl⟩, .nil, fun path => iff_of_false List.not_mem_nil ?_⟩
    rintro ⟨present, _⟩
    rw [barred.hasDirectory] at present
    cases present
  rw [found]
  cases directory : tree.hasDirectory root with
  | false =>
    refine ⟨rfl, [], .inl ⟨?_, rfl⟩, .nil, fun path => iff_of_false List.not_mem_nil ?_⟩
    · rintro path (barred | ⟨present, _⟩ | ⟨present, _⟩)
      · exact findable root ⟨rfl, barred⟩
      · exact absurd present (by simp [directory])
      · exact absurd present (by simp [directory])
    · rintro ⟨present, _⟩
      rw [directory] at present
      cases present
  | true =>
    obtain ⟨paths, scanned, distinct, members⟩ := matched_everySource proper rooted directory
    refine ⟨?_, sorted paths, scanned.andThen rfl, ascending_mergeSort distinct, fun path => ?_⟩
    · simp only [matchedAll_default]
      rcases scanned with ⟨_, scanned⟩ | ⟨path, _, failed⟩
      · rw [scanned]
        exact congrArg Except.ok (sortedUnique_eq distinct)
      · rw [failed]
        rfl
    · rw [sorted, List.mem_mergeSort]
      exact members path

private theorem entries_unlisted (unlisted : config.files.getD [] = []) (projectRoot : String) :
    entries tree config projectRoot = below tree config (sourceRoot config projectRoot) := by
  rw [entries, unlisted]
  rfl

end

/-- Without a list of files, the default pattern and no pattern give the same entries, or fail in the
same way. Unless the search comes to a path that is too long to be looked up, these are the source
files at any depth below the source directory, by their absolute paths and in strictly ascending order;
and otherwise it fails at such a path. -/
theorem entries_everySource {tree : FileTree} (proper : tree.Proper)
    (rooted : Path.isAbsolute projectRoot = true) (config : Config)
    (unlisted : config.files.getD [] = []) :
    entries tree { config with patterns := Config.default.patterns } projectRoot =
      entries tree { config with patterns := [] } projectRoot ∧
    ((∀ path, ¬ OutOfReach tree (sourceRoot config projectRoot) path) →
      ∃ found, entries tree { config with patterns := [] } projectRoot = .ok found ∧
        found.Pairwise (· < ·) ∧
        ∀ path, path ∈ found ↔ SourceBelow tree (sourceRoot config projectRoot) path) ∧
    ((∃ path, OutOfReach tree (sourceRoot config projectRoot) path) →
      ∃ path, OutOfReach tree (sourceRoot config projectRoot) path ∧
        entries tree { config with patterns := [] } projectRoot = .error (.file .nameTooLong path)) := by
  have absolute := isAbsolute_sourceRoot rooted config
  have unlisted (patterns : List String) :
      entries tree { config with patterns := patterns } projectRoot =
        below tree { config with patterns := patterns } (sourceRoot config projectRoot) :=
    entries_unlisted (by exact unlisted) projectRoot
  rw [unlisted, unlisted]
  obtain ⟨same, found, scanned, ascending, members⟩ := below_everySource proper absolute config
  refine ⟨same, fun reachable => ?_, fun ⟨path, barred⟩ => ?_⟩
  · rcases scanned with ⟨_, scanned⟩ | ⟨path, barred, _⟩
    · exact ⟨found, scanned, ascending, members⟩
    · exact absurd barred (reachable path)
  · rcases scanned with ⟨reachable, _⟩ | failed
    · exact absurd barred (reachable path)
    · exact failed

/-- It is enough that the paths of all entries, seen from the source directory, are short. -/
theorem reachable_of_short {tree : FileTree} (findable : ¬ tree.Unnameable root)
    (short : ∀ entry ∈ tree.entries, (Path.descend root
      (entry.1.drop (FileTree.location root).length)).utf8ByteSize ≤ pathLimit) (path : String) :
    ¬ OutOfReach tree root path := by
  have below {way : Location} {entry : Entry} (present : tree.hasDirectory root = true)
      (found : tree.get? (FileTree.location root ++ way) = some entry) :
      (Path.descend root way).utf8ByteSize ≤ pathLimit := by
    by_cases here : way = []
    · rw [here]
      exact (FileTree.locate_eq_ok.mp (FileTree.hasDirectory_iff.mp present).2).1.2
    · have member := FileTree.mem_of_get? (List.append_ne_nil_of_right_ne_nil _ here) found
      have bound := short _ member
      rwa [List.drop_left] at bound
  rintro (barred | ⟨present, found, long⟩ | ⟨present, found, _, long⟩)
  · exact findable barred
  · exact Nat.not_lt.mpr (below present found) long
  · exact Nat.not_lt.mpr (below present found) long

/-- A project with a file that is called like the extension alone, and a directory that is called like
a source file. -/
def nestedTree : FileTree :=
  ⟨[(["p"], .directory), (["p", "src"], .directory), (["p", "src", ".as"], .file ⟨#[]⟩),
    (["p", "src", "a"], .directory), (["p", "src", "a", "z.b.as"], .file ⟨#[]⟩),
    (["p", "src", "a.as"], .directory), (["p", "src", "b.as"], .file ⟨#[]⟩)]⟩

theorem entries_everySource_nested :
    nestedTree.Proper ∧ (∀ path, ¬ OutOfReach nestedTree (sourceRoot Config.default "/p") path) ∧
    entries nestedTree Config.default "/p" = .ok ["/p/src/a/z.b.as", "/p/src/b.as"] ∧
    ∀ path, path ∈ ["/p/src/a/z.b.as", "/p/src/b.as"] ↔
      SourceBelow nestedTree (sourceRoot Config.default "/p") path := by
  have proper : nestedTree.Proper := by decide +kernel
  have reachable : ∀ path, ¬ OutOfReach nestedTree (sourceRoot Config.default "/p") path :=
    reachable_of_short (by decide +kernel) (by decide +kernel)
  have rooted : Path.isAbsolute "/p" = true := by decide
  have scanned : entries nestedTree { Config.default with patterns := [] } "/p" =
      .ok ["/p/src/a/z.b.as", "/p/src/b.as"] := by
    have present : Pattern.found nestedTree Entry.isDirectory (sourceRoot Config.default "/p") =
        .ok true := by decide +kernel
    have met : matched nestedTree (sourceRoot Config.default "/p") everySource =
        .ok ["/p/src/b.as", "/p/src/a/z.b.as"] := by decide +kernel
    have ordered : sorted ["/p/src/b.as", "/p/src/a/z.b.as"] =
        ["/p/src/a/z.b.as", "/p/src/b.as"] := by simp [sorted, List.mergeSort]
    rw [← ordered]
    change below nestedTree { Config.default with patterns := [] } (sourceRoot Config.default "/p") = _
    rw [below, present]
    simp only [met]
    rfl
  obtain ⟨same, sources, _⟩ := entries_everySource proper rooted Config.default rfl
  obtain ⟨found, given, _, members⟩ := sources reachable
  refine ⟨proper, reachable, same.trans scanned, ?_⟩
  rwa [Except.ok.inj (scanned.symm.trans given)]

def longName : String := String.ofList (List.replicate (nameLimit + 1) 'a')

private theorem name_longName : Path.Name longName.toList := by
  rw [longName, String.toList_ofList]
  exact ⟨by decide, by decide, by decide, by decide⟩

private theorem sourceRoot_name (named : Path.Name name.toList) (config : Config) :
    sourceRoot { config with rootDir := name } "/p" = Path.join "/p" name := by
  have relative := Path.isAbsolute_name named
  have rooted : Path.isAbsolute "/p" = true := by decide
  have joined : Path.join "/p" name = "/p" ++ "/" ++ name := by
    rw [Path.join, relative]
    rfl
  apply String.toList_injective
  rw [sourceRoot, Path.tidy, String.toList_ofList, Path.leadingSlashes_join rooted named,
    Path.names_join rooted relative, Path.names_name named, joined, String.toList_append]
  rfl

private theorem unnameable_longName : nestedTree.Unnameable (Path.join "/p" longName) := by
  have sound : FileTree.hasNull longName = false := by
    rw [FileTree.hasNull, longName, String.toList_ofList]
    decide
  refine ⟨FileTree.hasNull_join (by decide) sound, .inr ⟨["", "p"], longName, [], ["p"], ?_⟩⟩
  refine ⟨?_, by decide +kernel, by decide +kernel, ?_, by decide +kernel⟩
  · have rooted : Path.isAbsolute "/p" = true := by decide
    have whole : FileTree.pathParts "/p" = ["", "p"] := rfl
    rcases FileTree.pathParts_join rooted name_longName with parts | ⟨front, blank, _⟩
    · rwa [whole] at parts
    · have last := congrArg List.getLast? (whole.symm.trans blank)
      rw [List.getLast?_concat] at last
      exact absurd last (by decide)
  · exact String.ofList_toList (s := longName) ▸ FileTree.names_ofList name_longName

private theorem below_unnameable {tree : FileTree} (barred : tree.Unnameable root)
    (config : Config) :
    below tree config root = .error (.file .nameTooLong root) := by
  unfold below
  rcases Pattern.found_directory tree root with ⟨findable, _⟩ | ⟨_, ⟨rfl, _⟩, failed⟩
  · exact absurd ⟨rfl, barred⟩ (findable root)
  · rw [failed]
    rfl

/-- A source directory that cannot be there, as its name is too long, is not taken for one without
source files. -/
theorem entries_longName :
    entries nestedTree { Config.default with rootDir := longName } "/p" =
      .error (.file .nameTooLong (Path.join "/p" longName)) ∧
    entries nestedTree { Config.default with rootDir := longName, patterns := [] } "/p" =
      .error (.file .nameTooLong (Path.join "/p" longName)) := by
  have fails (patterns : List String) :
      entries nestedTree { Config.default with rootDir := longName, patterns := patterns } "/p" =
        .error (.file .nameTooLong (Path.join "/p" longName)) := by
    have barred := unnameable_longName
    rw [← sourceRoot_name name_longName { Config.default with patterns := patterns }] at barred ⊢
    exact (entries_unlisted (by rfl) "/p").trans (below_unnameable barred _)
  exact ⟨fails Config.default.patterns, fails []⟩

end ScriptKit.Discovery
