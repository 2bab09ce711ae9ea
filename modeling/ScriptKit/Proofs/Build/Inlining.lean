import ScriptKit.Proofs.Build.Effect
import ScriptKit.Proofs.FileTree.Lookup
import ScriptKit.Proofs.Program.Plain

/-!
Inlining without a memory: the text of a file is its own with the text of every file it imports in
the place of the import. Nothing is written and nothing is remembered, so a file that is imported
twice is inlined twice.
-/
namespace ScriptKit

theorem Workspace.rooted_normal (workspace : Workspace) (normal : Path.Normal path slashes list) :
    workspace.rooted path = path :=
  if_pos (.inr normal.isAbsolute)

/-- The text of a file right below the root. -/
theorem SourceFile.read_shallow {workspace : Workspace} (shallow : FileTree.Shallow path name)
    (found : workspace.files.get? [name] = some (.file text.toUTF8)) (plain : Text.Plain text) :
    read workspace path = .ok text := by
  have rooted : workspace.rooted path = path := if_pos (.inr shallow.1)
  rw [read, Workspace.read, rooted, shallow.read found]
  dsimp only
  rw [Text.ofFile_toUTF8 plain]

theorem SourceFile.load_congr (same : one.read path = two.read path) :
    load one path = load two path := by
  rw [load, load, read, read, same]

/-- A source file right below the root depends on no other place. -/
theorem SourceFile.load_shallow {one two : Workspace} (shallow : FileTree.Shallow path name)
    (same : one.files.get? [name] = two.files.get? [name]) : load one path = load two path := by
  have rooted (workspace : Workspace) : workspace.rooted path = path := if_pos (.inr shallow.1)
  apply load_congr
  rw [Workspace.read, Workspace.read, rooted, rooted]
  exact shallow.read_congr same

theorem SourceFile.read_of_load (loaded : load workspace path = .ok program) :
    ∃ content, workspace.read path = .ok content := by
  obtain ⟨content, _, present, _, _⟩ := load_eq_ok loaded
  exact ⟨content, present⟩

namespace Build

mutual

/-- `Inlines workspace path result`: the text of the file at a path, or why it has none. -/
inductive Inlines (workspace : Workspace) : String → Except Failure String → Prop where
  | unloaded {failure : Failure} (load : SourceFile.load workspace path = .error failure) :
      Inlines workspace path (.error failure)
  | loaded (load : SourceFile.load workspace path = .ok program)
      (filled : InlinesAll workspace path program.emit result) : Inlines workspace path result

/-- The same for what was emitted for a file. -/
inductive InlinesAll (workspace : Workspace) : String → List Fragment →
    Except Failure String → Prop where
  | nil : InlinesAll workspace file [] (.ok "")
  | text (following : InlinesAll workspace file fragments result) :
      InlinesAll workspace file (.text code :: fragments) (result.map (code ++ ·))
  | failed {failure : Failure}
      (imported : Inlines workspace (importTarget file path) (.error failure)) :
      InlinesAll workspace file (.site span path :: fragments)
        (.error (importFailure file span path failure))
  | site (imported : Inlines workspace (importTarget file path) (.ok code))
      (following : InlinesAll workspace file fragments result) :
      InlinesAll workspace file (.site span path :: fragments)
        (result.map (spliced (importTarget file path) code ++ ·))

end

mutual

theorem Inlines.unique : Inlines workspace path result → Inlines workspace path result' →
    result = result'
  | .unloaded load, .unloaded load' => by
    cases load.symm.trans load'
    rfl
  | .unloaded load, .loaded load' _ => by cases load.symm.trans load'
  | .loaded load _, .unloaded load' => by cases load.symm.trans load'
  | .loaded load filled, .loaded load' filled' => by
    cases load.symm.trans load'
    exact filled.unique filled'

theorem InlinesAll.unique : InlinesAll workspace file fragments result →
    InlinesAll workspace file fragments result' → result = result'
  | .nil, .nil => rfl
  | .text following, .text following' => by rw [following.unique following']
  | .failed imported, .failed imported' => by
    cases imported.unique imported'
    rfl
  | .failed imported, .site imported' _ => by cases imported.unique imported'
  | .site imported _, .failed imported' => by cases imported.unique imported'
  | .site imported following, .site imported' following' => by
    cases imported.unique imported'
    rw [following.unique following']

end

/-- The first file can be loaded and has an import of the second. -/
def Imports (workspace : Workspace) (file target : String) : Prop :=
  ∃ program span path, SourceFile.load workspace file = .ok program ∧
    .site span path ∈ program.emit ∧ target = importTarget file path

theorem importTarget_normal (file path : String) :
    ∃ slashes list, Path.Normal (importTarget file path) slashes list :=
  Path.absolute_normal rfl _

/-- A source file that is read stands at no directory above another one. -/
theorem not_above {workspace : Workspace} (normal : Path.Normal path slashes list)
    (normal' : Path.Normal other slashes' list')
    (loaded : SourceFile.load workspace path = .ok program)
    (loaded' : SourceFile.load workspace other = .ok program') :
    ¬ list' <+: Path.names (Path.headChars path.toList) := by
  intro above
  obtain ⟨content, found⟩ := SourceFile.read_of_load loaded
  obtain ⟨content', found'⟩ := SourceFile.read_of_load loaded'
  unfold Workspace.read at found found'
  rw [workspace.rooted_normal normal] at found
  rw [workspace.rooted_normal normal'] at found'
  have located := (FileTree.read_eq_ok.mp found).2
  have present := (FileTree.locate_eq_ok.mp (FileTree.read_eq_ok.mp found').2).2.2
  rw [FileTree.location_normal normal'] at present
  have directory : workspace.files.get? (list'.map String.ofList) = some .directory := by
    rcases List.eq_nil_or_concat list with rfl | ⟨before, name, rfl⟩
    · rw [normal.root.2] at above
      rw [List.prefix_nil.mp above]
      rfl
    · rw [List.concat_eq_append] at normal
      rw [normal.concat.2] at above
      exact FileTree.directory_above normal located above
  cases present.symm.trans directory

private theorem plain_spliced (normal : Path.Normal file slashes list)
    (loaded : SourceFile.load workspace file = .ok program) (path : String)
    (loaded' : SourceFile.load workspace (importTarget file path) = .ok program')
    (plain : Text.Plain path) (plainCode : Text.Plain code) :
    Text.Plain (spliced (importTarget file path) code) := by
  unfold spliced
  split
  · obtain ⟨slashes', list', normal', cases'⟩ := Path.target_cases normal path
    have base : Text.Plain (Path.baseName (importTarget file path)) := by
      rcases cases' with above | ⟨before, last, member, rfl⟩
      · exact absurd above (not_above normal normal' loaded loaded')
      · refine Text.plain_ofList.mpr fun within => plain ?_
        have last : Path.baseChars (importTarget file path).toList = last := normal'.concat.1
        rw [last] at within
        exact Path.mem_of_mem_part (List.mem_filter.mp member).1 _ within
    rw [emptyMark, Text.plain_append, Text.plain_append]
    exact ⟨⟨by decide, base⟩, by decide⟩
  · exact plainCode

theorem Inlines.loads (inlines : Inlines workspace path (.ok code)) :
    ∃ program, SourceFile.load workspace path = .ok program := by
  cases inlines with
  | loaded load _ => exact ⟨_, load⟩

mutual

/-- Inlining gives no text with carriage returns. -/
theorem Inlines.plain : Inlines workspace path result →
    (∃ slashes list, Path.Normal path slashes list) → ∀ code, result = .ok code → Text.Plain code
  | .unloaded _, _ => nofun
  | .loaded load filled, normal => filled.plain normal load (SourceFile.load_plain load)

theorem InlinesAll.plain : InlinesAll workspace file fragments result →
    (∃ slashes list, Path.Normal file slashes list) → SourceFile.load workspace file = .ok program →
    (∀ fragment ∈ fragments, fragment.Plain) → ∀ code, result = .ok code → Text.Plain code
  | .nil, _, _, _ => by
    rintro _ ⟨⟩
    decide
  | .text following, normal, loaded, plain => by
    intro code same
    obtain ⟨text, found, rfl⟩ := map_eq_ok same
    obtain ⟨first, rest⟩ := List.forall_mem_cons.mp plain
    exact Text.plain_append.mpr ⟨first, following.plain normal loaded rest text found⟩
  | .failed _, _, _, _ => nofun
  | .site imported following, normal, loaded, plain => by
    intro code same
    obtain ⟨text, found, rfl⟩ := map_eq_ok same
    obtain ⟨first, rest⟩ := List.forall_mem_cons.mp plain
    obtain ⟨program', loaded'⟩ := imported.loads
    obtain ⟨slashes, list, normal'⟩ := normal
    have imported' := imported.plain (importTarget_normal _ _) _ rfl
    exact Text.plain_append.mpr ⟨plain_spliced normal' loaded _ loaded' first imported',
      following.plain ⟨slashes, list, normal'⟩ loaded rest text found⟩

end

/-- The tokens of an import at a column of the first line. -/
def importTokens (start : Nat) (path : String) : List Token :=
  [⟨.keyword .importWord, ⟨1, start⟩⟩, ⟨.symbol .leftParen, ⟨1, start + 6⟩⟩,
    ⟨.string path, ⟨1, start + 7⟩⟩, ⟨.symbol .rightParen, ⟨1, start + path.length + 9⟩⟩,
    ⟨.symbol .semicolon, ⟨1, start + path.length + 10⟩⟩]

/-- The program of a text that is one import. -/
def circleProgram (path : String) (stop : Nat) : Program :=
  ⟨⟨⟨1, 1⟩, ⟨1, stop⟩⟩, [.importFile ⟨⟨1, 1⟩, ⟨1, stop⟩⟩ path]⟩

/-- The program of a text that is two imports. -/
def twinProgram (first second : String) : Program :=
  ⟨⟨⟨1, 1⟩, ⟨1, first.length + second.length + 23⟩⟩,
    [.importFile ⟨⟨1, 1⟩, ⟨1, first.length + 11⟩⟩ first,
      .importFile ⟨⟨1, first.length + 13⟩, ⟨1, first.length + second.length + 23⟩⟩ second]⟩

section
variable {workspace : Workspace}

theorem load_empty (text : SourceFile.read workspace file = .ok "") :
    SourceFile.load workspace file = .ok ⟨⟨⟨1, 1⟩, ⟨1, 1⟩⟩, []⟩ := by
  have tokens : TokenStream.ofSource "" = .ok ⟨[], ⟨1, 1⟩⟩ := by decide +kernel
  refine SourceFile.load_eq text ?_
  simp [Program.ofSource, tokens, Program.ofStream, parseProgram, parseStatements, bind, Except.bind,
    pure, Except.pure]

theorem load_circle (text : SourceFile.read workspace file = .ok source)
    (tokens : TokenStream.ofSource source = .ok ⟨importTokens 1 path, ⟨1, path.length + 12⟩⟩) :
    SourceFile.load workspace file = .ok (circleProgram path (path.length + 11)) := by
  refine SourceFile.load_eq text ?_
  simp [Program.ofSource, tokens, Program.ofStream, parseProgram, parseStatements, parseStatement,
    expectSymbol, expectString, bind, Except.bind, pure, Except.pure, importTokens, circleProgram]
  omega

theorem load_twin (first second : String) (text : SourceFile.read workspace file = .ok source)
    (tokens : TokenStream.ofSource source = .ok
      ⟨importTokens 1 first ++ importTokens (first.length + 13) second,
        ⟨1, first.length + second.length + 24⟩⟩) :
    SourceFile.load workspace file = .ok (twinProgram first second) := by
  refine SourceFile.load_eq text ?_
  simp [Program.ofSource, tokens, Program.ofStream, parseProgram, parseStatements, parseStatement,
    expectSymbol, expectString, bind, Except.bind, pure, Except.pure, importTokens, twinProgram]
  omega

end

end Build
end ScriptKit
