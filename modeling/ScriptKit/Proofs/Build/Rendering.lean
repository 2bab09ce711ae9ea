import ScriptKit.Proofs.Build.Isolation
import ScriptKit.Proofs.Build.Overlay
import ScriptKit.Proofs.Build.Refinement

/-!
What compiling a file comes to when nothing is remembered: its text, or why it has none, and all that
is written on the way, also for the imports of a file that fails. In a project without circles a build
gives just this, whatever it has compiled before, as long as what is missing stays missing.
-/
namespace ScriptKit

theorem FileTree.path_of_read_failed {tree : FileTree}
    (failed : tree.read path = .error (.failed error other)) : other = path := by
  unfold FileTree.read at failed
  split at failed
  · cases failed
  · split at failed
    · cases failed
    · cases failed
      rfl
    · cases failed
      rfl

/-- A source file is missing if nothing is at its path. -/
theorem SourceFile.load_missing {workspace : Workspace} (normal : Path.Normal path slashes list) :
    load workspace path = .error (.missingSource path) ↔
      workspace.read path = .error (.failed .notFound path) := by
  constructor
  · intro missing
    obtain ⟨_, place, absent⟩ := load_isMissing missing rfl
    have absent' := absent
    rw [Workspace.read, workspace.rooted_normal normal] at absent'
    rw [absent, FileTree.path_of_read_failed absent']
  · intro absent
    unfold load read
    rw [absent]
    rfl

namespace Build

/-- What is left once a file is filled: its text is written, if there is a directory above its output.
The texts that were written so far stay written. -/
def concluded (settings : BuildSettings) (path : String) (writes : List (String × String)) :
    Except Failure String → List (String × String) × Except Failure String
  | .error failure => (writes, .error failure)
  | .ok code =>
    if Path.directory (settings.outputPath path) = "" then (writes, .error (.file .notFound ""))
    else (writes ++ [(path, code)], .ok code)

mutual

/-- `Renders settings start path writes result`: from the files at the start, compiling the file gives
the result and writes texts for files, for some of them more than once. -/
inductive Renders (settings : BuildSettings) (start : Workspace) : String →
    List (String × String) → Except Failure String → Prop where
  | unloaded {failure : Failure} (load : SourceFile.load start path = .error failure) :
      Renders settings start path [] (.error failure)
  | loaded (load : SourceFile.load start path = .ok program)
      (filled : RendersAll settings start path program.emit writes result)
      (ends : concluded settings path writes result = (writes', result')) :
      Renders settings start path writes' result'

/-- The same for what was emitted for a file. -/
inductive RendersAll (settings : BuildSettings) (start : Workspace) : String → List Fragment →
    List (String × String) → Except Failure String → Prop where
  | nil : RendersAll settings start file [] [] (.ok "")
  | text (following : RendersAll settings start file fragments writes result) :
      RendersAll settings start file (.text code :: fragments) writes (result.map (code ++ ·))
  | failed {failure : Failure}
      (imported : Renders settings start (importTarget file path) writes (.error failure)) :
      RendersAll settings start file (.site span path :: fragments) writes
        (.error (importFailure file span path failure))
  | site (imported : Renders settings start (importTarget file path) writes (.ok code))
      (following : RendersAll settings start file fragments writes' result) :
      RendersAll settings start file (.site span path :: fragments) (writes ++ writes')
        (result.map (spliced (importTarget file path) code ++ ·))

end

mutual

theorem Renders.unique : Renders settings start path writes result →
    Renders settings start path writes' result' → writes = writes' ∧ result = result'
  | .unloaded load, .unloaded load' => by
    cases load.symm.trans load'
    exact ⟨rfl, rfl⟩
  | .unloaded load, .loaded load' _ _ => by cases load.symm.trans load'
  | .loaded load _ _, .unloaded load' => by cases load.symm.trans load'
  | .loaded load filled ends, .loaded load' filled' ends' => by
    cases load.symm.trans load'
    obtain ⟨rfl, rfl⟩ := filled.unique filled'
    exact Prod.mk.inj (ends.symm.trans ends')

theorem RendersAll.unique : RendersAll settings start file fragments writes result →
    RendersAll settings start file fragments writes' result' → writes = writes' ∧ result = result'
  | .nil, .nil => ⟨rfl, rfl⟩
  | .text following, .text following' => by
    obtain ⟨rfl, rfl⟩ := following.unique following'
    exact ⟨rfl, rfl⟩
  | .failed imported, .failed imported' => by
    obtain ⟨rfl, same⟩ := imported.unique imported'
    cases same
    exact ⟨rfl, rfl⟩
  | .failed imported, .site imported' _ => by cases (imported.unique imported').2
  | .site imported _, .failed imported' => by cases (imported.unique imported').2
  | .site imported following, .site imported' following' => by
    obtain ⟨rfl, same⟩ := imported.unique imported'
    cases same
    obtain ⟨rfl, rfl⟩ := following.unique following'
    exact ⟨rfl, rfl⟩

end

private theorem concluded_ok (ends : concluded settings path writes result = (writes', .ok code)) :
    result = .ok code ∧ writes' = writes ++ [(path, code)] ∧
      Path.directory (settings.outputPath path) ≠ "" := by
  unfold concluded at ends
  split at ends
  · cases (Prod.mk.inj ends).2
  · split at ends
    · cases (Prod.mk.inj ends).2
    · rename_i housed
      obtain ⟨rfl, same⟩ := Prod.mk.inj ends
      cases same
      exact ⟨rfl, rfl, housed⟩

mutual

/-- A text that is rendered is the inlined one. -/
theorem Renders.inlines : Renders settings start path writes result →
    ∀ code, result = .ok code → Inlines start path (.ok code)
  | .unloaded _, _, impossible => nomatch impossible
  | .loaded load filled ends, code, same => by
    rw [same] at ends
    exact .loaded load (filled.inlines code (concluded_ok ends).1)

theorem RendersAll.inlines : RendersAll settings start file fragments writes result →
    ∀ code, result = .ok code → InlinesAll start file fragments (.ok code)
  | .nil, _, same => by
    cases same
    exact .nil
  | .text following, _, same => by
    obtain ⟨text, found, rfl⟩ := map_eq_ok same
    exact .text (following.inlines text found)
  | .failed _, _, impossible => nomatch impossible
  | .site imported following, _, same => by
    obtain ⟨text, found, rfl⟩ := map_eq_ok same
    exact .site (imported.inlines _ rfl) (following.inlines text found)

end

/-- A project without circles of imports, in which no two files have one output and no output is read
as a source. -/
structure Independent (settings : BuildSettings) (start : Workspace) (roots : List String) :
    Prop where
  rooted : Path.isAbsolute start.directory = true
  acyclic : ∀ path, Reachable start roots path → ¬ Relation.TransGen (Imports start) path path
  distinct : ∀ path other program program', Reachable start roots path →
    SourceFile.load start path = .ok program → Reachable start roots other →
    SourceFile.load start other = .ok program' →
    start.location (settings.outputPath path) = start.location (settings.outputPath other) →
      path = other
  apart : ∀ path other program, Reachable start roots path →
    SourceFile.load start path = .ok program → Reachable start roots other →
    start.location (settings.outputPath path) ≠ start.location other

section
variable {settings : BuildSettings} {start : Workspace} {roots : List String}

private theorem exists_rendersAll (imported : ∀ span path, .site span path ∈ fragments →
      ∃ writes result, Renders settings start (importTarget file path) writes result) :
    ∃ writes result, RendersAll settings start file fragments writes result := by
  induction fragments with
  | nil => exact ⟨_, _, .nil⟩
  | cons fragment fragments ih =>
    obtain ⟨writes', result', following⟩ := ih fun span path member =>
      imported span path (List.mem_cons_of_mem _ member)
    cases fragment with
    | text code => exact ⟨_, _, .text following⟩
    | site span path =>
      obtain ⟨writes, failure | code, first⟩ := imported span path List.mem_cons_self
      · exact ⟨_, _, .failed first⟩
      · exact ⟨_, _, .site first following⟩

/-- Without circles, every file has a rendering. The chain has the files that led to it. -/
theorem Independent.renders_below {chain : List String}
    (independent : Independent settings start roots)
    (normal : ∀ path, Reachable start roots path → ∃ slashes list, Path.Normal path slashes list)
    (source : Reachable start roots path) (distinct : chain.Nodup)
    (leads : ∀ file ∈ chain, Reachable start roots file ∧
      Relation.TransGen (Imports start) file path)
    (room : 2 * start.files.entries.length < chain.length + depth) :
    ∃ writes result, Renders settings start path writes result := by
  induction depth generalizing path chain with
  | zero =>
    have few : chain.length ≤ 2 * start.files.entries.length := by
      apply FileTree.length_le_of_normal distinct
      · intro file member
        exact normal file (leads file member).1
      · intro file member
        obtain ⟨slashes, list, normal⟩ := normal file (leads file member).1
        obtain ⟨program, load⟩ := Imports.loads (leads file member).2
        obtain ⟨content, found⟩ := SourceFile.read_of_load load
        rw [Workspace.read, start.rooted_normal normal] at found
        exact ⟨content, found⟩
    omega
  | succ depth ih =>
    rcases load : SourceFile.load start path with failure | program
    · exact ⟨_, _, .unloaded load⟩
    have fresh : path ∉ chain := fun member => independent.acyclic path source (leads path member).2
    obtain ⟨writes, result, filled⟩ : ∃ writes result,
        RendersAll settings start path program.emit writes result := by
      apply exists_rendersAll
      intro span name member
      have imports : Imports start path (importTarget path name) :=
        ⟨program, span, name, load, member, rfl⟩
      refine @ih _ (path :: chain) (source.imports imports)
        (List.nodup_cons.mpr ⟨fresh, distinct⟩) ?_ (by rw [List.length_cons]; omega)
      intro file member
      rcases List.mem_cons.mp member with rfl | member
      · exact ⟨source, .single imports⟩
      · exact ⟨(leads file member).1, (leads file member).2.tail imports⟩
    exact ⟨_, _, .loaded load filled rfl⟩

/-- The outputs of the compiled files are what is rendered for them, and whatever is written on the way
is there as well. -/
structure Rendered (settings : BuildSettings) (start : Workspace) (roots : List String)
    (state : BuildState) : Prop where
  overlays : Overlays settings start state.compiled state.workspace
  reachable : ∀ path ∈ state.compiled, Reachable start roots path
  held : ∀ path ∈ state.compiled, ∃ writes code,
    Renders settings start path writes (.ok code) ∧
      state.workspace.read (settings.outputPath path) = .ok code.toUTF8 ∧
      ∀ other ∈ writes.map Prod.fst, other ∈ state.compiled

theorem Renders.loads (renders : Renders settings start path writes (.ok code)) :
    ∃ program, SourceFile.load start path = .ok program := by
  cases renders with
  | loaded load _ _ => exact ⟨_, load⟩

namespace Rendered

variable {before after state : BuildState}

theorem fresh : Rendered settings start roots (.fresh start) := ⟨.nil start, nofun, nofun⟩

theorem congr (rendered : Rendered settings start roots before)
    (files : after.workspace.files = before.workspace.files)
    (directory : after.workspace.directory = before.workspace.directory)
    (compiled : after.compiled = before.compiled) : Rendered settings start roots after := by
  obtain ⟨overlays, reachable, held⟩ := rendered
  have grows : before.workspace.Grows (fun _ => False) after.workspace := .of_files files directory
  rw [← compiled] at overlays reachable held
  refine ⟨overlays.shown files directory, reachable, fun path member => ?_⟩
  obtain ⟨writes, code, renders, found, further⟩ := held path member
  exact ⟨writes, code, renders, grows.read found not_false, further⟩

theorem shown (rendered : Rendered settings start roots before) (shown : Shows before after) :
    Rendered settings start roots after :=
  rendered.congr shown.files shown.directory shown.compiled

/-- One more output is stored, after all that is written before it. -/
theorem stored (rendered : Rendered settings start roots before)
    (independent : Independent settings start roots) (source : Reachable start roots path)
    (renders : Renders settings start path (writes ++ [(path, code)]) (.ok code))
    (earlier : ∀ other ∈ writes.map Prod.fst, other ∈ before.compiled)
    (stores : before.workspace.Stores (settings.outputPath path) code reached) :
    Rendered settings start roots
      (BuildState.record { before with workspace := reached } path) := by
  refine ⟨rendered.overlays.snoc independent.rooted stores, ?_, ?_⟩
  · intro other member
    rcases List.mem_append.mp member with known | last
    · exact rendered.reachable other known
    · exact List.mem_singleton.mp last ▸ source
  · intro other member
    by_cases same : other = path
    · subst same
      refine ⟨_, code, renders, stores.read, fun entry listed => ?_⟩
      rw [List.map_append] at listed
      exact List.mem_append.mpr ((List.mem_append.mp listed).imp_left (earlier entry))
    · have known : other ∈ before.compiled := by
        rcases List.mem_append.mp member with known | last
        · exact known
        · exact absurd (List.mem_singleton.mp last) same
      obtain ⟨writes', code', renders', found, further⟩ := rendered.held other known
      refine ⟨writes', code', renders', stores.grows.read found ?_,
        fun entry listed => List.mem_append_left _ (further entry listed)⟩
      rw [rendered.overlays.grows.location, rendered.overlays.grows.location]
      intro shared
      obtain ⟨program, load⟩ := renders.loads
      obtain ⟨program', load'⟩ := renders'.loads
      exact same (independent.distinct other path program' program
        (rendered.reachable other known) load' source load shared)

/-- A compiled file is read back as it was rendered. -/
theorem read (rendered : Rendered settings start roots before) (known : path ∈ before.compiled)
    (normal : ∃ slashes list, Path.Normal path slashes list)
    (renders : Renders settings start path writes expected)
    (run : Yields (readOutput settings path) before result after) :
    result = expected ∧ ∀ other ∈ writes.map Prod.fst, other ∈ before.compiled := by
  obtain ⟨writes', code, renders', found, further⟩ := rendered.held path known
  obtain ⟨rfl, rfl⟩ := renders.unique renders'
  refine ⟨?_, further⟩
  have plain := (renders.inlines code rfl).plain normal code rfl
  have whole : Yields (readOutput settings path) before (.ok code) before := by
    refine Yields.get.bind ?_
    rw [found]
    dsimp only
    rw [Text.ofFile_toUTF8 plain]
    exact .pure
  exact (run.unique whole).1

end Rendered

/-- What a build relies on while no file outside of a bound is compiled: with all files of the bound
compiled, what is missing is still missing. -/
structure Horizon (settings : BuildSettings) (start : Workspace) (roots bound : List String)
    (finish : Workspace) : Prop where
  independent : Independent settings start roots
  normal : ∀ path, Reachable start roots path → ∃ slashes list, Path.Normal path slashes list
  overlays : Overlays settings start bound finish
  missing : ∀ path, Reachable start roots path →
    SourceFile.load start path = .error (.missingSource path) →
      SourceFile.load finish path = .error (.missingSource path)

/-- The sources are what they were at the start. -/
theorem Horizon.load_eq (horizon : Horizon settings start roots bound finish)
    (rendered : Rendered settings start roots state)
    (within : ∀ path ∈ state.compiled, path ∈ bound) (source : Reachable start roots path) :
    SourceFile.load state.workspace path = SourceFile.load start path := by
  obtain ⟨slashes, list, normal⟩ := horizon.normal path source
  have read (workspace : Workspace) : workspace.read path = workspace.files.read path := by
    rw [Workspace.read, workspace.rooted_normal normal]
  by_cases absent : start.read path = .error (.failed .notFound path)
  · have missing := (SourceFile.load_missing normal).mpr absent
    have later := (SourceFile.load_missing normal).mp (horizon.missing path source missing)
    rw [missing, SourceFile.load_missing normal, read]
    apply Decidable.byContradiction
    intro present
    have grows := rendered.overlays.grows_of_subset horizon.overlays within
    rw [read] at later
    exact grows.files.read_present normal present later
  · apply SourceFile.load_congr
    have still : ¬ AtOutput settings start state.compiled (FileTree.location path) := by
      rintro ⟨other, member, same⟩
      obtain ⟨_, _, renders, _⟩ := rendered.held other member
      obtain ⟨program, load⟩ := renders.loads
      refine horizon.independent.apart other path program (rendered.reachable other member) load
        source ?_
      rw [same, Workspace.location, start.rooted_normal normal]
    rw [read] at absent ⊢
    rw [read]
    exact rendered.overlays.grows.files.read_normal normal still absent

/-- Either way, nothing outside of the bound is compiled. -/
def Bounded (bound : List String) (writes : List (String × String)) (after : BuildState) : Prop :=
  (∀ path ∈ after.compiled, path ∈ bound) ∨ ∀ path ∈ writes.map Prod.fst, path ∈ bound

/-- A state within the bound. -/
def Within (settings : BuildSettings) (start : Workspace) (roots bound : List String)
    (state : BuildState) : Prop :=
  Rendered settings start roots state ∧ ∀ path ∈ state.compiled, path ∈ bound

theorem Within.enter {before : BuildState} (within : Within settings start roots bound before)
    (path : String) : Within settings start roots bound (before.enter path) :=
  ⟨within.1.congr rfl rfl rfl, within.2⟩

/-- From the one state to the other, just the files with these texts were compiled. -/
structure Tracks (settings : BuildSettings) (start : Workspace) (roots : List String)
    (before : BuildState) (writes : List (String × String)) (after : BuildState) : Prop where
  rendered : Rendered settings start roots after
  compiled : ∀ path, path ∈ after.compiled ↔ path ∈ before.compiled ∨ path ∈ writes.map Prod.fst

namespace Tracks

variable {before middle after : BuildState}

theorem within (tracks : Tracks settings start roots before writes after)
    (within : Within settings start roots bound before) (bounded : Bounded bound writes after) :
    Within settings start roots bound after := by
  refine ⟨tracks.rendered, fun path member => ?_⟩
  rcases bounded with bounded | bounded
  · exact bounded path member
  · exact ((tracks.compiled path).mp member).elim (within.2 path) (bounded path)

theorem trans (first : Tracks settings start roots before writes middle)
    (second : Tracks settings start roots middle writes' after) :
    Tracks settings start roots before (writes ++ writes') after := by
  refine ⟨second.rendered, fun path => ?_⟩
  rw [second.compiled, first.compiled, List.map_append, List.mem_append, or_assoc]

theorem leave (tracks : Tracks settings start roots (before.enter path) writes after) :
    Tracks settings start roots before writes after.leave :=
  ⟨tracks.rendered.congr rfl rfl rfl, tracks.compiled⟩

end Tracks

/-- A compilation ends as it should, or it is blocked. -/
def Follows (settings : BuildSettings) (start : Workspace) (roots bound : List String)
    (before : BuildState) (writes : List (String × String)) (expected result : Except Failure String)
    (after : BuildState) : Prop :=
  result = expected ∧ Tracks settings start roots before writes after ∨
    ∃ failure, result = .error failure ∧
      Blocked settings (Within settings start roots bound) (· ∈ writes.map Prod.fst) failure

theorem Follows.map (follows : Follows settings start roots bound before writes expected result after)
    (change : String → String) :
    Follows settings start roots bound before writes (expected.map change) (result.map change)
      after := by
  rcases follows with ⟨rfl, tracks⟩ | ⟨failure, rfl, blocked⟩
  · exact .inl ⟨rfl, tracks⟩
  · exact .inr ⟨failure, rfl, blocked⟩

theorem Bounded.of_append (bounded : Bounded bound (writes ++ writes') after) :
    Bounded bound writes after ∧ Bounded bound writes' after := by
  unfold Bounded at bounded ⊢
  rw [List.map_append] at bounded
  refine ⟨bounded.imp_right fun all path member => all path (List.mem_append_left _ member),
    bounded.imp_right fun all path member => all path (List.mem_append_right _ member)⟩

theorem Bounded.earlier {middle after : BuildState} (bounded : Bounded bound writes after)
    (extends' : ∀ path ∈ middle.compiled, path ∈ after.compiled) : Bounded bound writes middle :=
  bounded.imp_left fun all path member => all path (extends' path member)

private theorem concluded_extends
    (ends : concluded settings path writes result = (writes', result')) :
    ∃ more, writes' = writes ++ more := by
  unfold concluded at ends
  split at ends
  · exact ⟨[], (Prod.mk.inj ends).1.symm.trans (List.append_nil writes).symm⟩
  · split at ends
    · exact ⟨[], (Prod.mk.inj ends).1.symm.trans (List.append_nil writes).symm⟩
    · exact ⟨_, (Prod.mk.inj ends).1.symm⟩

theorem Renders.of_unloaded {failure : Failure} (renders : Renders settings start path writes expected)
    (load : SourceFile.load start path = .error failure) :
    writes = [] ∧ expected = .error failure := by
  cases renders with
  | unloaded load' =>
    cases load.symm.trans load'
    exact ⟨rfl, rfl⟩
  | loaded load' _ _ => cases load.symm.trans load'

theorem Renders.of_load (renders : Renders settings start path writes' expected')
    (load : SourceFile.load start path = .ok program) :
    ∃ writes expected, RendersAll settings start path program.emit writes expected ∧
      concluded settings path writes expected = (writes', expected') := by
  cases renders with
  | unloaded load' => cases load.symm.trans load'
  | loaded load' filled ends =>
    cases load.symm.trans load'
    exact ⟨_, _, filled, ends⟩

/-- What is filled for a file is bounded if the file is. -/
theorem Bounded.of_concluded (bounded : Bounded bound writes' after)
    (ends : concluded settings path writes expected = (writes', expected')) :
    Bounded bound writes after := by
  obtain ⟨more, rfl⟩ := concluded_extends ends
  exact bounded.of_append.1

section
variable {before middle after : BuildState} {failure : Failure}

/-- A file of which an import fails. -/
theorem Follows.unfilled (inner : Follows settings start roots bound (before.enter path) writes
      expected (.error failure) after)
    (ends : concluded settings path writes expected = (writes', expected')) :
    Follows settings start roots bound before writes' expected' (.error failure) after.leave := by
  rcases inner with ⟨rfl, tracks⟩ | ⟨_, same, blocked⟩
  · obtain ⟨rfl, rfl⟩ := Prod.mk.inj ends
    exact .inl ⟨rfl, tracks.leave⟩
  · obtain ⟨more, rfl⟩ := concluded_extends ends
    exact .inr ⟨_, same, blocked.widen fun _ member =>
      List.map_subset _ (List.subset_append_left writes more) member⟩

/-- A file whose output is refused, which it should be only if no directory is above it. -/
theorem Follows.unwritten (rooted : Path.isAbsolute start.directory = true)
    (entered : Within settings start roots bound (before.enter path))
    (inner : Follows settings start roots bound (before.enter path) writes expected (.ok code) middle)
    (ends : concluded settings path writes expected = (writes', expected'))
    (bounded : Bounded bound writes middle)
    (refused : Yields (writeOutput (settings.outputPath path) code) middle (.error failure) after)
    (none : ∀ workspace, ¬ middle.workspace.Stores (settings.outputPath path) code workspace) :
    Follows settings start roots bound before writes' expected' (.error failure) after.leave := by
  rcases inner with ⟨rfl, tracks⟩ | ⟨_, impossible, _⟩
  · by_cases homeless : Path.directory (settings.outputPath path) = ""
    · obtain ⟨same, rfl⟩ := writeOutput_homeless homeless refused
      cases same
      rw [concluded, if_pos homeless] at ends
      obtain ⟨rfl, rfl⟩ := Prod.mk.inj ends
      exact .inl ⟨rfl, tracks.leave⟩
    · rw [concluded, if_neg homeless] at ends
      obtain ⟨rfl, rfl⟩ := Prod.mk.inj ends
      have rooted := tracks.rendered.overlays.grows.directory.symm ▸ rooted
      refine .inr ⟨_, rfl, .refused (tracks.within entered bounded) ?_ none
        fun recorded => homeless (writeOutput_recorded rooted refused recorded)⟩
      rw [List.map_append]
      exact List.mem_append_right _ List.mem_cons_self
  · cases impossible

/-- A file whose output is stored. -/
theorem Follows.written (independent : Independent settings start roots)
    (source : Reachable start roots path) (renders : Renders settings start path writes' expected')
    (inner : Follows settings start roots bound (before.enter path) writes expected (.ok code) middle)
    (ends : concluded settings path writes expected = (writes', expected'))
    (stores : middle.workspace.Stores (settings.outputPath path) code reached)
    (shown : Shows (BuildState.record { middle with workspace := reached } path).leave after) :
    Follows settings start roots bound before writes' expected' (.ok code) after := by
  rcases inner with ⟨rfl, tracks⟩ | ⟨_, impossible, _⟩
  · rw [concluded, if_neg stores.housed] at ends
    obtain ⟨rfl, rfl⟩ := Prod.mk.inj ends
    have recorded := tracks.rendered.stored independent source renders
      (fun other member => (tracks.compiled other).mpr (.inr member)) stores
    refine .inl ⟨rfl, recorded.congr shown.files shown.directory shown.compiled, fun other => ?_⟩
    rw [shown.compiled, List.map_append, List.mem_append, ← or_assoc]
    exact List.mem_append.trans (or_congr_left (tracks.compiled other))
  · cases impossible

end

mutual

theorem Compiles.follows (horizon : Horizon settings start roots bound finish) :
    Compiles settings depth path before events result after →
    Within settings start roots bound before → Nested start roots 0 depth path before →
    Renders settings start path writes expected → Bounded bound writes after →
    Follows settings start roots bound before writes expected result after
  | .exhausted, _, _, _, _ => .inr ⟨_, rfl, .exhausted⟩
  | .cached known read, within, nested, renders, _ => by
    have shown := readOutput_shows read
    obtain ⟨same, further⟩ :=
      within.1.read known (horizon.normal path nested.reachable) renders read
    refine .inl ⟨same, within.1.shown shown, fun other => ?_⟩
    rw [shown.compiled]
    exact ⟨.inl, fun member => member.elim id (further other)⟩
  | .cyclic _ started _, _, nested, _, _ =>
    absurd (nested.leads path started).2 (horizon.independent.acyclic path nested.reachable)
  | .unloaded _ _ load, within, nested, renders, _ => by
    rw [horizon.load_eq within.1 within.2 nested.reachable] at load
    obtain ⟨rfl, rfl⟩ := renders.of_unloaded load
    exact .inl ⟨rfl, within.1, fun other => by simp⟩
  | .unfilled _ _ load filled, within, nested, renders, bounded => by
    rw [horizon.load_eq within.1 within.2 nested.reachable] at load
    obtain ⟨_, _, filled', ends⟩ := renders.of_load load
    exact (filled.follows horizon (within.enter path) (nested.enter load) filled'
      (bounded.of_concluded ends)).unfilled ends
  | .unwritten _ _ load filled refused, within, nested, renders, bounded => by
    rw [horizon.load_eq within.1 within.2 nested.reachable] at load
    obtain ⟨_, _, filled', ends⟩ := renders.of_load load
    have bounded := bounded.of_concluded ends
    obtain ⟨_, none, _, rfl⟩ := writeOutput_refused refused
    have inner := filled.follows horizon (within.enter path) (nested.enter load) filled' bounded
    exact inner.unwritten horizon.independent.rooted (within.enter path) ends bounded refused none
  | .written _ _ load filled wrote told, within, nested, renders, bounded => by
    rw [horizon.load_eq within.1 within.2 nested.reachable] at load
    obtain ⟨writes, _, filled', ends⟩ := renders.of_load load
    have shown := info_shows told
    obtain ⟨_, stores, rfl⟩ := writeOutput_ok wrote
    have inner := filled.follows horizon (within.enter path) (nested.enter load) filled'
      ((bounded.of_concluded ends).earlier fun other member => by
        rw [shown.compiled]
        exact List.mem_append_left [path] member)
    exact inner.written horizon.independent nested.reachable renders ends stores shown

theorem Fills.follows (horizon : Horizon settings start roots bound finish) :
    Fills settings depth file fragments before events result after →
    Within settings start roots bound before → Inside start roots 0 depth file fragments before →
    RendersAll settings start file fragments writes expected → Bounded bound writes after →
    Follows settings start roots bound before writes expected result after
  | .nil, within, _, .nil, _ => .inl ⟨rfl, within.1, fun other => by simp⟩
  | .text following, within, inside, .text following', bounded =>
    (following.follows horizon within (inside.rest rfl) following' bounded).map _
  | .failed imported, within, inside, .failed imported', bounded => by
    rcases imported.follows horizon within inside.site imported' bounded with
      ⟨same, tracks⟩ | ⟨_, same, blocked⟩
    · cases same
      exact .inl ⟨rfl, tracks⟩
    · cases same
      exact .inr ⟨_, congrArg Except.error blocked.imported, blocked⟩
  | .failed imported, within, inside, .site imported' following', bounded => by
    rcases imported.follows horizon within inside.site imported' bounded.of_append.1 with
      ⟨impossible, _⟩ | ⟨_, same, blocked⟩
    · cases impossible
    · cases same
      exact .inr ⟨_, congrArg Except.error blocked.imported, blocked.widen fun _ member =>
        List.map_subset _ (List.subset_append_left ..) member⟩
  | .site imported following, within, inside, .failed imported', bounded => by
    rcases imported.follows horizon within inside.site imported'
      (bounded.earlier following.effect.mem_compiled) with ⟨impossible, _⟩ | ⟨_, impossible, _⟩
    · cases impossible
    · cases impossible
  | .site imported following, within, inside, .site imported' following', bounded => by
    obtain ⟨first, second⟩ := bounded.of_append
    have first := first.earlier following.effect.mem_compiled
    rcases imported.follows horizon within inside.site imported' first with
      ⟨same, tracks⟩ | ⟨_, impossible, _⟩
    · cases same
      rcases following.follows horizon (tracks.within within first)
        (inside.rest imported.effect.inProgress) following' second with
        ⟨rfl, tracks'⟩ | ⟨_, rfl, blocked⟩
      · exact .inl ⟨rfl, tracks.trans tracks'⟩
      · exact .inr ⟨_, rfl, blocked.widen fun _ member =>
          List.map_subset _ (List.subset_append_right ..) member⟩
    · cases impossible

end

end

end Build

end ScriptKit
