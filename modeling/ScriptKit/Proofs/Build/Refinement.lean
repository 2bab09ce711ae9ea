import Mathlib.Logic.Relation
import ScriptKit.Proofs.Build.Inlining
import ScriptKit.Proofs.Build.Session
import ScriptKit.Proofs.Build.Storing

/-!
A build gives what inlining gives. Whatever was compiled before, and whichever calls failed, a file
compiles to its inlined text or fails as inlining does, as long as the outputs of a project keep out
of the way of each other and of its sources.
-/
namespace ScriptKit.Build

/-- The files that some files lead to by imports. -/
def Reachable (workspace : Workspace) (roots : List String) (path : String) : Prop :=
  ∃ root ∈ roots, Relation.ReflTransGen (Imports workspace) root path

/-- The workspaces that come from one by writing outputs of its reachable files, in any order and
with any text. The console may change as well. -/
inductive Written (settings : BuildSettings) (start : Workspace) (roots : List String) :
    Workspace → Prop where
  | unchanged : Written settings start roots start
  | shown (earlier : Written settings start roots before) (files : after.files = before.files)
      (directory : after.directory = before.directory) : Written settings start roots after
  | stored (earlier : Written settings start roots before) (source : Reachable start roots path)
      (stores : before.Stores (settings.outputPath path) code after) :
      Written settings start roots after

/-- A project whose outputs and sources keep apart: imports go around in no circle, no two files have
one output, every output can be written at all times, and none is a file to be read. The current
directory is an absolute path. -/
structure Separate (settings : BuildSettings) (workspace : Workspace) (roots : List String) :
    Prop where
  rooted : Path.isAbsolute workspace.directory = true
  acyclic : ∀ path, Reachable workspace roots path →
    ¬ Relation.TransGen (Imports workspace) path path
  distinct : ∀ path other, Reachable workspace roots path → Reachable workspace roots other →
    workspace.location (settings.outputPath path) = workspace.location (settings.outputPath other) →
      path = other
  writable : ∀ path reached code, Reachable workspace roots path →
    Written settings workspace roots reached →
      ∃ after, reached.Stores (settings.outputPath path) code after
  apart : ∀ path other, Reachable workspace roots path → Reachable workspace roots other →
    workspace.location (settings.outputPath path) ≠ workspace.location other

/-- A file that is missing stays missing: writing outputs makes no directory in its place. -/
def MissingStay (settings : BuildSettings) (workspace : Workspace) (roots : List String) : Prop :=
  ∀ path reached, Reachable workspace roots path → Written settings workspace roots reached →
    SourceFile.load workspace path = .error (.missingSource path) →
      SourceFile.load reached path = .error (.missingSource path)

theorem Reachable.imports (reachable : Reachable workspace roots file)
    (imports : Imports workspace file target) : Reachable workspace roots target := by
  obtain ⟨root, member, leads⟩ := reachable
  exact ⟨root, member, leads.tail imports⟩

theorem Reachable.normal {workspace : Workspace} {paths : List String}
    (rooted : Path.isAbsolute workspace.directory = true)
    (reachable : Reachable workspace (paths.map workspace.absolute) path) :
    ∃ slashes list, Path.Normal path slashes list := by
  obtain ⟨root, member, leads⟩ := reachable
  rcases leads.cases_tail with rfl | ⟨file, _, _, _, name, _, _, rfl⟩
  · obtain ⟨given, _, rfl⟩ := List.mem_map.mp member
    exact Path.absolute_normal rooted given
  · exact importTarget_normal file name

theorem Imports.loads (leads : Relation.TransGen (Imports workspace) path target) :
    ∃ program, SourceFile.load workspace path = .ok program := by
  obtain ⟨_, ⟨program, _, _, load, _, _⟩, _⟩ := Relation.TransGen.head'_iff.mp leads
  exact ⟨program, load⟩

theorem Written.grows (written : Written settings start roots reached) :
    start.Grows (fun place => ∃ path, Reachable start roots path ∧
      start.location (settings.outputPath path) = place) reached := by
  induction written with
  | unchanged => exact .refl start
  | shown earlier files directory ih =>
    exact ih.trans (.of_files files directory)
  | stored earlier source stores ih =>
    refine ih.trans (stores.grows.weaken ?_)
    intro place same
    exact ⟨_, source, (ih.location _).symm.trans same.symm⟩

/-- A source file is the same in all these workspaces. -/
theorem Written.load_eq (separate : Separate settings start roots)
    (missing : MissingStay settings start roots) (written : Written settings start roots reached)
    (reachable : Reachable start roots path)
    (normal : ∃ slashes list, Path.Normal path slashes list) :
    SourceFile.load reached path = SourceFile.load start path := by
  obtain ⟨slashes, list, normal⟩ := normal
  by_cases absent : start.read path = .error (.failed .notFound path)
  · have unloaded : SourceFile.load start path = .error (.missingSource path) := by
      unfold SourceFile.load SourceFile.read
      rw [absent]
      rfl
    rw [unloaded, missing path reached reachable written unloaded]
  · have still : ¬ ∃ other, Reachable start roots other ∧
        start.location (settings.outputPath other) = FileTree.location path := by
      rintro ⟨other, reachable', same⟩
      refine separate.apart other path reachable' reachable ?_
      rw [same, Workspace.location, start.rooted_normal normal]
    have same : reached.read path = start.read path := by
      unfold Workspace.read at absent ⊢
      rw [start.rooted_normal normal] at absent ⊢
      rw [reached.rooted_normal normal]
      exact written.grows.files.read_normal normal still absent
    unfold SourceFile.load SourceFile.read
    rw [same]

/-- As outputs are written into the box, nothing gets in their way, and outside of the box nothing
changes. -/
theorem written_free {start : Workspace} (free : Free box start.files)
    (slots : ∀ path, Reachable start roots path → ∃ name, Slot box name (settings.outputPath path))
    (written : Written settings start roots reached) :
    Free box reached.files ∧
      ∀ other, other ≠ box → reached.files.get? [other] = start.files.get? [other] := by
  induction written with
  | unchanged => exact ⟨free, fun _ _ => rfl⟩
  | shown earlier files directory ih => rwa [files]
  | stored earlier source stores ih =>
    obtain ⟨name, slot⟩ := slots _ source
    obtain ⟨free', same⟩ := ih
    obtain ⟨after, stores', free'', same'⟩ := free'.stores slot _
    cases stores.unique stores'
    exact ⟨free'', fun other apart => (same' other apart).trans (same other apart)⟩

/-- What a build remembers: in a workspace with nothing but outputs written, the output of each
compiled file has its inlined text. -/
structure Refined (settings : BuildSettings) (start : Workspace) (roots : List String)
    (state : BuildState) : Prop where
  written : Written settings start roots state.workspace
  held : ∀ path ∈ state.compiled, Reachable start roots path ∧
    ∃ code, Inlines start path (.ok code) ∧
      state.workspace.read (settings.outputPath path) = .ok code.toUTF8

namespace Refined

variable {settings : BuildSettings} {start : Workspace} {before after : BuildState}

theorem fresh : Refined settings start roots (.fresh start) := ⟨.unchanged, nofun⟩

theorem shown (refined : Refined settings start roots before)
    (files : after.workspace.files = before.workspace.files)
    (directory : after.workspace.directory = before.workspace.directory)
    (compiled : after.compiled = before.compiled) : Refined settings start roots after := by
  refine ⟨.shown refined.written files directory, ?_⟩
  intro path member
  rw [compiled] at member
  obtain ⟨reachable, code, inlines, found⟩ := refined.held path member
  refine ⟨reachable, code, inlines, ?_⟩
  have grows : before.workspace.Grows (fun _ => False) after.workspace := .of_files files directory
  exact grows.read found not_false

theorem stored (refined : Refined settings start roots before)
    (distinct : ∀ path other, Reachable start roots path → Reachable start roots other →
      start.location (settings.outputPath path) = start.location (settings.outputPath other) →
        path = other)
    (reachable : Reachable start roots path) (inlines : Inlines start path (.ok code))
    (stores : before.workspace.Stores (settings.outputPath path) code reached) :
    Refined settings start roots (BuildState.record { before with workspace := reached } path) := by
  refine ⟨.stored refined.written reachable stores, ?_⟩
  intro other member
  by_cases same : other = path
  · subst same
    exact ⟨reachable, code, inlines, stores.read⟩
  · have earlier : other ∈ before.compiled := by
      rcases List.mem_append.mp member with earlier | last
      · exact earlier
      · exact absurd (List.mem_singleton.mp last) same
    obtain ⟨reachable', code', inlines', found⟩ := refined.held other earlier
    refine ⟨reachable', code', inlines', stores.grows.read found ?_⟩
    rw [refined.written.grows.location, refined.written.grows.location]
    exact fun shared => same (distinct other path reachable' reachable shared)

/-- A compiled file is read back as it was inlined. -/
theorem read (refined : Refined settings start roots before) (known : path ∈ before.compiled)
    (normal : ∃ slashes list, Path.Normal path slashes list)
    (run : Yields (readOutput settings path) before result after) : Inlines start path result := by
  obtain ⟨_, code, inlines, found⟩ := refined.held path known
  have whole : Yields (readOutput settings path) before (.ok code) before := by
    refine Yields.get.bind ?_
    rw [found]
    dsimp only
    rw [Text.ofFile_toUTF8 (inlines.plain normal code rfl)]
    exact .pure
  obtain ⟨rfl, _⟩ := run.unique whole
  exact inlines

end Refined

/-- The imports that led to a file: the files in progress lead to it, and there is room to nest for
as many more as the bound leaves. -/
structure Nested (start : Workspace) (roots : List String) (bound depth : Nat) (path : String)
    (state : BuildState) : Prop where
  reachable : Reachable start roots path
  leads : ∀ outer ∈ state.inProgress, Reachable start roots outer ∧
    Relation.TransGen (Imports start) outer path
  room : bound ≤ state.inProgress.length + depth

/-- The same inside a file, some of whose fragments are left to fill. -/
structure Inside (start : Workspace) (roots : List String) (bound depth : Nat) (file : String)
    (fragments : List Fragment) (state : BuildState) : Prop where
  reachable : Reachable start roots file
  imports : ∀ span path, .site span path ∈ fragments → Imports start file (importTarget file path)
  leads : ∀ outer ∈ state.inProgress, Reachable start roots outer ∧
    Relation.ReflTransGen (Imports start) outer file
  room : bound ≤ state.inProgress.length + depth

theorem Nested.enter (nested : Nested start roots bound (depth + 1) path before)
    (load : SourceFile.load start path = .ok program) :
    Inside start roots bound depth path program.emit (before.enter path) := by
  refine ⟨nested.reachable, fun span name member => ⟨program, span, name, load, member, rfl⟩, ?_, ?_⟩
  · intro outer member
    rcases List.mem_cons.mp member with rfl | member
    · exact ⟨nested.reachable, .refl⟩
    · obtain ⟨reachable, leads⟩ := nested.leads outer member
      exact ⟨reachable, leads.to_reflTransGen⟩
  · have room := nested.room
    rw [BuildState.enter, List.length_cons]
    omega

theorem Inside.site
    (inside : Inside start roots bound depth file (.site span path :: fragments) state) :
    Nested start roots bound depth (importTarget file path) state := by
  have imports := inside.imports span path List.mem_cons_self
  refine ⟨inside.reachable.imports imports, ?_, inside.room⟩
  intro outer member
  obtain ⟨reachable, leads⟩ := inside.leads outer member
  exact ⟨reachable, .tail' leads imports⟩

theorem Inside.rest (inside : Inside start roots bound depth file (fragment :: fragments) before)
    (inProgress : after.inProgress = before.inProgress) :
    Inside start roots bound depth file fragments after := by
  refine ⟨inside.reachable, ?_, ?_, ?_⟩
  · intro span path member
    exact inside.imports span path (List.mem_cons_of_mem fragment member)
  · rw [inProgress]
    exact inside.leads
  · rw [inProgress]
    exact inside.room

/-- What one call relies on: outputs and sources keep apart, sources stay what they are, and there
are fewer of them than imports may be nested. -/
structure Steady (settings : BuildSettings) (start : Workspace) (roots : List String) (bound : Nat) :
    Prop where
  separate : Separate settings start roots
  normal : ∀ path, Reachable start roots path → ∃ slashes list, Path.Normal path slashes list
  load_eq : ∀ path reached, Reachable start roots path → Written settings start roots reached →
    SourceFile.load reached path = SourceFile.load start path
  bounded : ∀ chain : List String, chain.Nodup → (∀ path ∈ chain, Reachable start roots path ∧
    ∃ program, SourceFile.load start path = .ok program) → chain.length < bound

mutual

/-- A compilation remembers what was inlined, and gives what inlining gives. -/
theorem Compiles.refines (steady : Steady settings start roots bound) :
    Compiles settings depth path before events result after → Refined settings start roots before →
    Orderly before → Nested start roots bound depth path before →
    Refined settings start roots after ∧ Inlines start path result
  | .exhausted, _, orderly, nested => by
    have fewer := steady.bounded before.inProgress orderly.progressing fun outer member =>
      ⟨(nested.leads outer member).1, Imports.loads (nested.leads outer member).2⟩
    have room := nested.room
    omega
  | .cached known read, refined, _, nested => by
    have shown := readOutput_shows read
    exact ⟨refined.shown shown.files shown.directory shown.compiled,
      refined.read known (steady.normal path nested.reachable) read⟩
  | .cyclic _ started _, _, _, nested =>
    absurd (nested.leads path started).2 (steady.separate.acyclic path nested.reachable)
  | .unloaded _ _ load, refined, _, nested => by
    rw [steady.load_eq path _ nested.reachable refined.written] at load
    exact ⟨refined, .unloaded load⟩
  | .unfilled unknown unstarted load filled, refined, orderly, nested => by
    rw [steady.load_eq path _ nested.reachable refined.written] at load
    obtain ⟨reached, inlines⟩ := filled.refines steady (refined.shown rfl rfl rfl)
      (orderly.enter unknown unstarted) (nested.enter load)
    exact ⟨reached.shown rfl rfl rfl, .loaded load inlines⟩
  | .unwritten unknown unstarted load filled refused, refined, orderly, nested => by
    rw [steady.load_eq path _ nested.reachable refined.written] at load
    obtain ⟨reached, _⟩ := filled.refines steady (refined.shown rfl rfl rfl)
      (orderly.enter unknown unstarted) (nested.enter load)
    obtain ⟨_, stores⟩ :=
      steady.separate.writable path _ _ nested.reachable reached.written
    obtain ⟨_, barred, _⟩ := writeOutput_refused refused
    exact absurd stores (barred _)
  | .written unknown unstarted load filled wrote told, refined, orderly, nested => by
    rw [steady.load_eq path _ nested.reachable refined.written] at load
    obtain ⟨reached, inlines⟩ := filled.refines steady (refined.shown rfl rfl rfl)
      (orderly.enter unknown unstarted) (nested.enter load)
    have whole := Inlines.loaded load inlines
    obtain ⟨_, stores, rfl⟩ := writeOutput_ok wrote
    have stored := reached.stored steady.separate.distinct nested.reachable whole stores
    have shown := info_shows told
    exact ⟨stored.shown shown.files shown.directory shown.compiled, whole⟩

theorem Fills.refines (steady : Steady settings start roots bound) :
    Fills settings depth file fragments before events result after →
    Refined settings start roots before → Orderly before →
    Inside start roots bound depth file fragments before →
    Refined settings start roots after ∧ InlinesAll start file fragments result
  | .nil, refined, _, _ => ⟨refined, .nil⟩
  | .text following, refined, orderly, inside => by
    obtain ⟨reached, inlines⟩ := following.refines steady refined orderly (inside.rest rfl)
    exact ⟨reached, .text inlines⟩
  | .failed imported, refined, orderly, inside => by
    obtain ⟨reached, inlines⟩ := imported.refines steady refined orderly inside.site
    exact ⟨reached, .failed inlines⟩
  | .site imported following, refined, orderly, inside => by
    obtain ⟨middle, inlines⟩ := imported.refines steady refined orderly inside.site
    obtain ⟨reached, inlines'⟩ := following.refines steady middle (imported.orderly orderly).1
      (inside.rest imported.effect.inProgress)
    exact ⟨reached, .site inlines inlines'⟩

end

/-- A call in such a project is steady. -/
theorem Refined.steady {workspace : Workspace} {paths : List String}
    (separate : Separate settings workspace (paths.map workspace.absolute))
    (missing : MissingStay settings workspace (paths.map workspace.absolute))
    (refined : Refined settings workspace (paths.map workspace.absolute) state) :
    Steady settings workspace (paths.map workspace.absolute)
      (depthLimit state.workspace.files) := by
  have normal : ∀ path, Reachable workspace (paths.map workspace.absolute) path →
      ∃ slashes list, Path.Normal path slashes list := fun _ => Reachable.normal separate.rooted
  have load_eq : ∀ path reached, Reachable workspace (paths.map workspace.absolute) path →
      Written settings workspace (paths.map workspace.absolute) reached →
        SourceFile.load reached path = SourceFile.load workspace path :=
    fun path _ reachable written =>
      written.load_eq separate missing reachable (normal path reachable)
  refine ⟨separate, normal, load_eq, ?_⟩
  intro chain distinct sources
  have found : ∀ path ∈ chain, ∃ content, state.workspace.files.read path = .ok content := by
    intro path member
    obtain ⟨reachable, program, loaded⟩ := sources path member
    rw [← load_eq path _ reachable refined.written] at loaded
    obtain ⟨content, read⟩ := SourceFile.read_of_load loaded
    obtain ⟨slashes, list, normal⟩ := normal path reachable
    rw [Workspace.read, state.workspace.rooted_normal normal] at read
    exact ⟨content, read⟩
  have fewer := FileTree.length_le_of_normal distinct
    (fun path member => normal path (sources path member).1) found
  unfold depthLimit
  omega

/-- The state after some calls, however each of them ended. -/
def afterCalls (settings : BuildSettings) (state : BuildState) (paths : List String) : BuildState :=
  paths.foldl (fun state path => ((compile settings path).run.run state).2) state

section
variable {settings : BuildSettings} {workspace : Workspace} {paths : List String}

theorem compile_refines (separate : Separate settings workspace (paths.map workspace.absolute))
    (missing : MissingStay settings workspace (paths.map workspace.absolute))
    (session : Session settings events [] before)
    (refined : Refined settings workspace (paths.map workspace.absolute) before)
    (member : path ∈ paths) (run : Yields (compile settings path) before result after) :
    (∃ events', Session settings events' [] after) ∧
      Refined settings workspace (paths.map workspace.absolute) after ∧
      Inlines workspace (workspace.absolute path) result := by
  have same : before.workspace.absolute path = workspace.absolute path := by
    unfold Workspace.absolute
    rw [refined.written.grows.directory]
  have run := run.rest .get
  obtain ⟨events', called⟩ := compileWithin_traced run
  refine ⟨⟨_, .compile session called⟩, ?_⟩
  rw [same] at called
  refine called.refines (refined.steady separate missing) refined session.orderly.1 ⟨?_, ?_, ?_⟩
  · exact ⟨_, List.mem_map.mpr ⟨path, member, rfl⟩, .refl⟩
  · rw [session.idle]
    nofun
  · exact Nat.le_add_left _ _

private theorem afterCalls_refined
    (separate : Separate settings workspace (paths.map workspace.absolute))
    (missing : MissingStay settings workspace (paths.map workspace.absolute))
    (session : Session settings events [] state)
    (refined : Refined settings workspace (paths.map workspace.absolute) state)
    (within : earlier ⊆ paths) :
    (∃ events', Session settings events' [] (afterCalls settings state earlier)) ∧
      Refined settings workspace (paths.map workspace.absolute)
        (afterCalls settings state earlier) := by
  induction earlier generalizing state events with
  | nil => exact ⟨⟨events, session⟩, refined⟩
  | cons path rest ih =>
    obtain ⟨⟨_, session'⟩, refined', _⟩ := compile_refines separate missing session refined
      (within List.mem_cons_self) (yields_run (compile settings path) state)
    exact ih session' refined' fun _ member =>
      within (List.mem_cons_of_mem path member)

end

/-- In a project whose outputs and sources keep apart, and whose missing files stay missing,
compiling a file after any calls gives exactly what inlining it gives: the same text or the same
failure. -/
theorem inlines_iff_compile (settings : BuildSettings) (workspace : Workspace)
    (earlier : List String) (path : String)
    (separate : Separate settings workspace ((earlier ++ [path]).map workspace.absolute))
    (missing : MissingStay settings workspace ((earlier ++ [path]).map workspace.absolute))
    (result : Except Failure String) :
    Inlines workspace (workspace.absolute path) result ↔
      ((compile settings path).run.run (afterCalls settings (.fresh workspace) earlier)).1 =
        result := by
  obtain ⟨⟨_, session⟩, refined⟩ := afterCalls_refined separate missing (.start workspace) .fresh
    (List.subset_append_left earlier [path])
  obtain ⟨_, _, inlines⟩ := compile_refines separate missing session refined
    (List.mem_append_right earlier List.mem_cons_self) (yields_run (compile settings path) _)
  constructor
  · intro inlines'
    exact inlines.unique inlines'
  · rintro rfl
    exact inlines

/-- Two files: one imports the other, and then something that is not there. -/
def pairText : String := "import(\"q.as\"); import(\"lib\");"

def pairProject : Workspace :=
  ⟨⟨[(["q.as"], .file "".toUTF8), (["p.as"], .file pairText.toUTF8)]⟩, "/", "", ""⟩

/-- Outputs go to a directory beside the sources. -/
def pairSettings (box : String) : BuildSettings := ⟨"/", "/" ++ box, ".as", ".js", true⟩

def pairProgram : Program :=
  ⟨⟨⟨1, 1⟩, ⟨1, 30⟩⟩, [.importFile ⟨⟨1, 1⟩, ⟨1, 15⟩⟩ "q.as", .importFile ⟨⟨1, 17⟩, ⟨1, 30⟩⟩ "lib"]⟩

theorem load_pair : SourceFile.load pairProject "/p.as" = .ok pairProgram := by
  have text : SourceFile.read pairProject "/p.as" = .ok pairText := by decide +kernel
  exact load_twin "q.as" "lib" text (by decide +kernel)

theorem load_single : SourceFile.load pairProject "/q.as" = .ok ⟨⟨⟨1, 1⟩, ⟨1, 1⟩⟩, []⟩ :=
  load_empty rfl

theorem load_absent : SourceFile.load pairProject "/lib" = .error (.missingSource "/lib") := rfl

theorem pair_targets : importTarget "/p.as" "q.as" = "/q.as" ∧
    importTarget "/p.as" "lib" = "/lib" := ⟨rfl, rfl⟩

theorem pair_absolute : pairProject.absolute "p.as" = "/p.as" := rfl

def pairPaths : List String := ["/p.as", "/q.as", "/lib"]

private theorem pair_imports (known : file ∈ pairPaths)
    (imports : Imports pairProject file target) :
    file = "/p.as" ∧ target ∈ ["/q.as", "/lib"] := by
  obtain ⟨program, span, path, load, member, rfl⟩ := imports
  simp only [pairPaths, List.mem_cons, List.not_mem_nil, or_false] at known
  rcases known with rfl | rfl | rfl
  · cases load_pair.symm.trans load
    have named : path = "q.as" ∨ path = "lib" := by
      simp only [pairProgram, Program.emit, Statement.emitAll, Statement.emit] at member
      simp at member
      exact member.imp And.right And.right
    rcases named with rfl | rfl
    · exact ⟨rfl, by simp [pair_targets.1]⟩
    · exact ⟨rfl, by simp [pair_targets.2]⟩
  · cases load_single.symm.trans load
    cases member
  · cases load_absent.symm.trans load

private theorem pair_reachable (given : ∀ root ∈ roots, root ∈ pairPaths)
    (reachable : Reachable pairProject roots path) : path ∈ pairPaths := by
  obtain ⟨root, member, leads⟩ := reachable
  induction leads with
  | refl => exact given root member
  | tail _ imports ih =>
    exact List.mem_cons_of_mem _ (pair_imports ih imports).2

/-- The name of an output. -/
def pairName (path : String) : String := (Path.splitExtension (Path.baseName path)).1 ++ ".js"

theorem pair_slot (chosen : box ∈ ["lib", "out"]) (known : path ∈ pairPaths) :
    Slot box (pairName path) ((pairSettings box).outputPath path) := by
  have all : ∀ box ∈ ["lib", "out"], ∀ path ∈ pairPaths,
      Slot box (pairName path) ((pairSettings box).outputPath path) := by decide
  exact all box chosen path known

private theorem pair_free (chosen : box ∈ ["lib", "out"]) : Free box pairProject.files := by
  refine ⟨.inl ?_, ?_⟩
  · revert box
    decide
  · simp [pairProject, FileTree.get?, List.lookup_cons, List.lookup_nil]

theorem pair_separate (chosen : box ∈ ["lib", "out"]) (given : ∀ root ∈ roots, root ∈ pairPaths) :
    Separate (pairSettings box) pairProject roots := by
  have slots (path : String) (reachable : Reachable pairProject roots path) :
      Slot box (pairName path) ((pairSettings box).outputPath path) :=
    pair_slot chosen (pair_reachable given reachable)
  refine ⟨by decide, ?_, ?_, ?_, ?_⟩
  · intro path reachable circle
    obtain ⟨next, first, _⟩ := Relation.TransGen.head'_iff.mp circle
    obtain ⟨rfl, _⟩ := pair_imports (pair_reachable given reachable) first
    obtain ⟨file, leads, last⟩ := Relation.TransGen.tail'_iff.mp circle
    obtain ⟨root, member, way⟩ := reachable
    have known := pair_reachable given ⟨root, member, way.trans leads⟩
    exact absurd (pair_imports known last).2 (by decide)
  · intro path other reachable reachable' same
    rw [(slots path reachable).location, (slots other reachable').location] at same
    have apart : ∀ path ∈ pairPaths, ∀ other ∈ pairPaths, pairName path = pairName other →
        path = other := by decide
    exact apart path (pair_reachable given reachable) other (pair_reachable given reachable')
      (List.cons.inj (List.cons.inj same).2).1
  · intro path reached code reachable written
    obtain ⟨free, _⟩ := written_free (pair_free chosen)
      (fun path reachable => ⟨_, slots path reachable⟩) written
    obtain ⟨after, stores, _⟩ := free.stores (slots path reachable) code
    exact ⟨after, stores⟩
  · intro path other reachable reachable' same
    rw [(slots path reachable).location] at same
    have short : ∀ other ∈ pairPaths, (pairProject.location other).length = 1 := by decide
    have length := short other (pair_reachable given reachable')
    rw [← same] at length
    cases length

theorem pair_missingStay (given : ∀ root ∈ roots, root ∈ pairPaths) :
    MissingStay (pairSettings "out") pairProject roots := by
  have chosen : "out" ∈ ["lib", "out"] := by decide
  intro path reached reachable written missing
  have known := pair_reachable given reachable
  simp only [pairPaths, List.mem_cons, List.not_mem_nil, or_false] at known
  rcases known with rfl | rfl | rfl
  · cases load_pair.symm.trans missing
  · cases load_single.symm.trans missing
  · obtain ⟨_, same⟩ := written_free (pair_free chosen)
      (fun path reachable => ⟨_, pair_slot chosen (pair_reachable given reachable)⟩) written
    have absent : reached.files.get? ["lib"] = none := same "lib" (by decide)
    have unread : reached.read "/lib" = .error (.failed .notFound "/lib") := by
      have parts : FileTree.pathParts "/lib" = ["", "lib"] := by decide
      have walked : reached.files.walk [] ["", "lib"] = .error .notFound := by
        rw [FileTree.walk_blank]
        simp [FileTree.walk, FileTree.isDirectoryAt, Entry.isDirectory, absent,
          (by decide : ¬ nameLimit < "lib".utf8ByteSize)]
      have rooted : reached.rooted "/lib" = "/lib" := if_pos (.inr (by decide))
      rw [Workspace.read, rooted, FileTree.read, if_neg (by decide),
        FileTree.locate_of_walk_error (by decide) (parts ▸ walked)]
    rw [SourceFile.load, SourceFile.read, unread]
    rfl

theorem pair_inlines : Inlines pairProject "/p.as" (.error (.reported
    ⟨.importing, .importFileNotFound "lib", some ⟨⟨1, 17⟩, ⟨1, 30⟩⟩, some "/p.as"⟩)) := by
  obtain ⟨single, absent⟩ := pair_targets
  have first : Inlines pairProject (importTarget "/p.as" "q.as") (.ok "") :=
    single ▸ .loaded load_single .nil
  have last : Inlines pairProject (importTarget "/p.as" "lib") (.error (.missingSource "/lib")) :=
    absent ▸ .unloaded load_absent
  exact .loaded load_pair (.site first (.text (.failed last)))

/-- The state after the first import. -/
def pairMiddle : BuildState :=
  ((compileWithin (pairSettings "lib") 5 "/q.as").run.run
    ((BuildState.fresh pairProject).enter "/p.as")).2

/-- Why the second import fails then. -/
def pairFailure : Failure :=
  .reported ⟨.reading, .sourceUnreadable "/lib" "Is a directory", none, none⟩

theorem pair_runs : Yields (compileWithin (pairSettings "lib") 5 "/q.as")
      ((BuildState.fresh pairProject).enter "/p.as") (.ok "") pairMiddle ∧
    ∃ after, Yields (compileWithin (pairSettings "lib") 5 "/lib") pairMiddle
      (.error pairFailure) after := by
  have results : ((compileWithin (pairSettings "lib") 5 "/q.as").run.run
        ((BuildState.fresh pairProject).enter "/p.as")).1 = .ok "" ∧
      ((compileWithin (pairSettings "lib") 5 "/lib").run.run pairMiddle).1 =
        .error pairFailure := by decide +kernel
  exact ⟨Prod.ext results.1 rfl, _, Prod.ext results.2 rfl⟩

private theorem pair_filled : ∃ after, Yields (fill (compileWithin (pairSettings "lib") 5) "/p.as"
    pairProgram.emit) ((BuildState.fresh pairProject).enter "/p.as")
      (.error (importFailure "/p.as" ⟨⟨1, 17⟩, ⟨1, 30⟩⟩ "lib" pairFailure)) after := by
  obtain ⟨single, absent⟩ := pair_targets
  obtain ⟨first, after, last⟩ := pair_runs
  rw [← single] at first
  rw [← absent] at last
  refine ⟨after, first.passed.bind (Yields.bind_error (Yields.bind_error (Yields.bind_error ?_)))⟩
  exact last.caught .throw

private theorem pair_compile :
    ((compile (pairSettings "lib") "p.as").run.run (.fresh pairProject)).1 =
    .error (importFailure "/p.as" ⟨⟨1, 17⟩, ⟨1, 30⟩⟩ "lib" pairFailure) := by
  obtain ⟨after, filled⟩ := pair_filled
  have whole : Yields (compileWithin (pairSettings "lib") 6 "/p.as") (.fresh pairProject)
      (.error (importFailure "/p.as" ⟨⟨1, 17⟩, ⟨1, 30⟩⟩ "lib" pairFailure)) after.leave := by
    refine Yields.get.bind ?_
    rw [if_neg (by decide), if_neg (by decide)]
    exact compileFresh_unfilled load_pair filled
  rw [← pair_absolute] at whole
  exact congrArg Prod.fst (Yields.get.bind whole)

/-- An import of something that is not there fails otherwise once outputs made a directory of that
name. -/
theorem compile_ne_inlined :
    Separate (pairSettings "lib") pairProject (["p.as"].map pairProject.absolute) ∧
      ∃ failure, Inlines pairProject (pairProject.absolute "p.as") (.error failure) ∧
        ((compile (pairSettings "lib") "p.as").run.run (.fresh pairProject)).1 ≠ .error failure := by
  refine ⟨pair_separate (by decide) (by decide), _, pair_absolute ▸ pair_inlines, ?_⟩
  rw [pair_compile]
  decide

theorem inlines_iff_compile_pair :
    Separate (pairSettings "out") pairProject (["q.as", "p.as"].map pairProject.absolute) ∧
    MissingStay (pairSettings "out") pairProject (["q.as", "p.as"].map pairProject.absolute) ∧
    ((compile (pairSettings "out") "p.as").run.run
        (afterCalls (pairSettings "out") (.fresh pairProject) ["q.as"])).1 =
      .error (.reported ⟨.importing, .importFileNotFound "lib", some ⟨⟨1, 17⟩, ⟨1, 30⟩⟩,
        some "/p.as"⟩) := by
  have given : ∀ root ∈ ["q.as", "p.as"].map pairProject.absolute, root ∈ pairPaths := by decide
  have separate := pair_separate (by decide : "out" ∈ ["lib", "out"]) given
  have missing := pair_missingStay given
  refine ⟨separate, missing, ?_⟩
  exact (inlines_iff_compile (pairSettings "out") pairProject ["q.as"] "p.as" separate missing _).mp
    (pair_absolute ▸ pair_inlines)

end ScriptKit.Build
