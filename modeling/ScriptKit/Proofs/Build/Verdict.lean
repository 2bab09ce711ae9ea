import ScriptKit.Proofs.Build.Isolation
import ScriptKit.Proofs.Build.Overlay
import ScriptKit.Proofs.Build.Refinement

/-!
The verdict on an entry of a build, compared with a build of the entry alone. What cannot be built is
found by both, unless a circle of imports leads to it: a file of the circle that was compiled while
another one of it was in progress stays compiled when that one fails.
-/
namespace ScriptKit

namespace Build

/-- What a file needs of its own to be compiled. -/
structure Buildable (settings : BuildSettings) (workspace : Workspace) (path : String) : Prop where
  loads : ∃ program, SourceFile.load workspace path = .ok program
  housed : Path.directory (settings.outputPath path) ≠ ""

/-- The file or one that it leads to cannot be compiled. -/
def Broken (settings : BuildSettings) (workspace : Workspace) (path : String) : Prop :=
  ∃ other, Relation.ReflTransGen (Imports workspace) path other ∧
    ¬ Buildable settings workspace other

theorem Broken.of_imports (imports : Imports workspace path target)
    (broken : Broken settings workspace target) : Broken settings workspace path := by
  obtain ⟨other, leads, unbuildable⟩ := broken
  exact ⟨other, leads.head imports, unbuildable⟩

/-- No output of the files that are reached is read as one of them. -/
structure Unmixed (settings : BuildSettings) (start : Workspace) (roots : List String) : Prop where
  rooted : Path.isAbsolute start.directory = true
  founded : start.files.Founded
  normal : ∀ path, Reachable start roots path → ∃ slashes list, Path.Normal path slashes list
  apart : ∀ path other program, Reachable start roots path →
    SourceFile.load start path = .ok program → Reachable start roots other →
    start.location (settings.outputPath path) ≠ start.location other

/-- A state with the outputs of files that can be built. -/
structure Covered (settings : BuildSettings) (start : Workspace) (roots : List String)
    (state : BuildState) : Prop where
  overlays : Overlays settings start state.compiled state.workspace
  legible : Legible settings state
  reachable : ∀ path ∈ state.compiled, Reachable start roots path
  buildable : ∀ path ∈ state.compiled, Buildable settings start path

namespace Covered

variable {settings : BuildSettings} {start : Workspace} {roots : List String}
  {before after state : BuildState}

theorem fresh : Covered settings start roots (.fresh start) :=
  ⟨.nil start, nofun, nofun, nofun⟩

theorem congr (covered : Covered settings start roots before)
    (files : after.workspace.files = before.workspace.files)
    (directory : after.workspace.directory = before.workspace.directory)
    (compiled : after.compiled = before.compiled) : Covered settings start roots after := by
  obtain ⟨overlays, legible, reachable, buildable⟩ := covered
  rw [← compiled] at overlays reachable buildable
  exact ⟨overlays.shown files directory, legible.of_grows (.of_files files directory) compiled,
    reachable, buildable⟩

theorem stored (covered : Covered settings start roots before)
    (rooted : Path.isAbsolute start.directory = true) (source : Reachable start roots path)
    (builds : Buildable settings start path)
    (stores : before.workspace.Stores (settings.outputPath path) code reached) :
    Covered settings start roots (BuildState.record { before with workspace := reached } path) := by
  refine ⟨covered.overlays.snoc rooted stores, covered.legible.stored stores, ?_, ?_⟩
  · intro other member
    rcases List.mem_append.mp member with earlier | last
    · exact covered.reachable other earlier
    · exact List.mem_singleton.mp last ▸ source
  · intro other member
    rcases List.mem_append.mp member with earlier | last
    · exact covered.buildable other earlier
    · exact List.mem_singleton.mp last ▸ builds

/-- The same sources can be loaded as at the start. -/
theorem load_iff (covered : Covered settings start roots state)
    (unmixed : Unmixed settings start roots) (source : Reachable start roots path) :
    SourceFile.load state.workspace path = .ok program ↔
      SourceFile.load start path = .ok program := by
  obtain ⟨slashes, list, normal⟩ := unmixed.normal path source
  refine covered.overlays.load_iff unmixed.founded normal ?_
  rintro ⟨other, member, same⟩
  obtain ⟨program, load⟩ := (covered.buildable other member).loads
  exact unmixed.apart other path program (covered.reachable other member) load source same

end Covered

/-- What a compiled file imports is compiled. Otherwise it leads back to the file, and it is still in
progress or there is an excuse. -/
def Closed (start : Workspace) (excused : String → Prop) (state : BuildState) : Prop :=
  ∀ file ∈ state.compiled, ∀ target, Imports start file target → target ∈ state.compiled ∨
    file ≠ target ∧ Relation.ReflTransGen (Imports start) target file ∧
      (target ∈ state.inProgress ∨ excused target)

namespace Closed

variable {start : Workspace} {excused : String → Prop} {before after state : BuildState}

theorem congr (closed : Closed start excused before) (compiled : after.compiled = before.compiled)
    (inProgress : ∀ path ∈ before.inProgress, path ∈ after.inProgress) :
    Closed start excused after := by
  intro file member target imports
  rw [compiled] at member ⊢
  rcases closed file member target imports with known | ⟨other, leads, started | excuse⟩
  · exact .inl known
  · exact .inr ⟨other, leads, .inl (inProgress target started)⟩
  · exact .inr ⟨other, leads, .inr excuse⟩

/-- A file can be left when it is compiled or excused. -/
theorem leave (closed : Closed start excused state) (innermost : state.inProgress = path :: outer)
    (settled : path ∈ state.compiled ∨ excused path) : Closed start excused state.leave := by
  have remaining : state.leave.inProgress = outer := by
    rw [BuildState.leave, innermost]
    rfl
  intro file member target imports
  rcases closed file member target imports with known | ⟨other, leads, started | excuse⟩
  · exact .inl known
  · rw [innermost] at started
    rcases List.mem_cons.mp started with rfl | started
    · rcases settled with known | excuse
      · exact .inl known
      · exact .inr ⟨other, leads, .inr excuse⟩
    · exact .inr ⟨other, leads, .inl (remaining.symm ▸ started)⟩
  · exact .inr ⟨other, leads, .inr excuse⟩

/-- A file is compiled after all that it imports, but for what is in progress. -/
theorem record (closed : Closed start excused state) (innermost : state.inProgress = path :: outer)
    (unstarted : path ∉ outer)
    (leads : ∀ file ∈ outer, Relation.ReflTransGen (Imports start) file path)
    (imported : ∀ target, Imports start path target →
      target ∈ state.compiled ∨ target ∈ state.inProgress) :
    Closed start excused (state.record path) := by
  have here : path ∈ (state.record path).compiled := List.mem_append_right _ List.mem_cons_self
  have earlier {file : String} (known : file ∈ state.compiled) :
      file ∈ (state.record path).compiled := List.mem_append_left _ known
  intro file member target imports
  rcases List.mem_append.mp member with member | last
  · exact (closed file member target imports).imp_left earlier
  · obtain rfl := List.mem_singleton.mp last
    rcases imported target imports with known | started
    · exact .inl (earlier known)
    · rw [innermost] at started
      rcases List.mem_cons.mp started with rfl | outside
      · exact .inl here
      · refine .inr ⟨?_, leads target outside, .inl ?_⟩
        · rintro rfl
          exact unstarted outside
        · exact innermost.symm ▸ started

/-- With no file in progress, all that a compiled file leads to is compiled, if there is no excuse on
a circle of imports. -/
theorem compiled (closed : Closed start excused state) (idle : state.inProgress = [])
    (known : path ∈ state.compiled)
    (inexcusable : ∀ file target, Relation.ReflTransGen (Imports start) path file →
      Imports start file target → file ≠ target →
        Relation.ReflTransGen (Imports start) target file → ¬ excused target)
    (leads : Relation.ReflTransGen (Imports start) path other) : other ∈ state.compiled := by
  induction leads with
  | refl => exact known
  | @tail file target leads imports ih =>
    rcases closed file ih target imports with known | ⟨apart, back, open'⟩
    · exact known
    · rcases open' with started | excuse
      · rw [idle] at started
        cases started
      · exact absurd excuse (inexcusable file target leads imports apart back)

end Closed

/-- A state in which the outputs of a build are accounted for. -/
structure Standing (settings : BuildSettings) (start : Workspace) (roots : List String)
    (excused : String → Prop) (state : BuildState) : Prop where
  covered : Covered settings start roots state
  closed : Closed start excused state

namespace Standing

variable {settings : BuildSettings} {start : Workspace} {roots : List String}
  {excused : String → Prop} {before after state : BuildState}

theorem fresh : Standing settings start roots excused (.fresh start) := ⟨.fresh, nofun⟩

theorem enter (standing : Standing settings start roots excused before) :
    Standing settings start roots excused (before.enter path) :=
  ⟨standing.covered.congr rfl rfl rfl,
    standing.closed.congr rfl fun _ member => List.mem_cons_of_mem path member⟩

theorem shown (standing : Standing settings start roots excused before)
    (shown : Shows before after) : Standing settings start roots excused after := by
  refine ⟨standing.covered.congr shown.files shown.directory shown.compiled,
    standing.closed.congr shown.compiled ?_⟩
  rw [shown.inProgress]
  exact fun _ => id

theorem abandon (standing : Standing settings start roots excused state)
    (innermost : state.inProgress = path :: outer) (excuse : excused path) :
    Standing settings start roots excused state.leave :=
  ⟨standing.covered.congr rfl rfl rfl, standing.closed.leave innermost (.inr excuse)⟩

theorem finish (standing : Standing settings start roots excused before)
    (rooted : Path.isAbsolute start.directory = true) (builds : Buildable settings start path)
    (nested : Nested start roots bound depth path outside) (unstarted : path ∉ outside.inProgress)
    (innermost : before.inProgress = path :: outside.inProgress)
    (imported : ∀ target, Imports start path target →
      target ∈ before.compiled ∨ target ∈ before.inProgress)
    (stores : before.workspace.Stores (settings.outputPath path) code reached) :
    Standing settings start roots excused
      (BuildState.record { before with workspace := reached } path).leave := by
  have covered := standing.covered.stored rooted nested.reachable builds stores
  have closed : Closed start excused { before with workspace := reached } := standing.closed
  have recorded := closed.record innermost unstarted
    (fun file member => (nested.leads file member).2.to_reflTransGen) imported
  exact ⟨covered.congr rfl rfl rfl,
    recorded.leave innermost (.inl (List.mem_append_right _ List.mem_cons_self))⟩

end Standing

/-- What comes of a file, as far as it is known: it got where it should, or it is broken, or it failed
for reasons that are not in the files. -/
inductive Judged (settings : BuildSettings) (start : Workspace) (roots : List String)
    (excused : String → Prop) (path : String) (aim : Prop) :
    Except Failure String → BuildState → Prop where
  | done (standing : Standing settings start roots excused after) (met : aim) :
      Judged settings start roots excused path aim (.ok code) after
  | broken {failure : Failure} (standing : Standing settings start roots excused after)
      (broken : Broken settings start path) :
      Judged settings start roots excused path aim (.error failure) after
  | blocked {failure : Failure} (blocked : Blocked settings (Covered settings start roots)
        (fun path => Reachable start roots path ∧ Buildable settings start path) failure) :
      Judged settings start roots excused path aim (.error failure) after

theorem Judged.map (judged : Judged settings start roots excused path aim result after)
    (further : aim → aim') (change : String → String) :
    Judged settings start roots excused path aim' (result.map change) after := by
  cases judged with
  | done standing met => exact .done standing (further met)
  | broken standing broken => exact .broken standing broken
  | blocked blocked => exact .blocked blocked

theorem Judged.of_ok (judged : Judged settings start roots excused path aim (.ok code) after) :
    Standing settings start roots excused after ∧ aim := by
  cases judged with
  | done standing met => exact ⟨standing, met⟩

theorem Judged.of_error {failure : Failure}
    (judged : Judged settings start roots excused path aim (.error failure) after) :
    Standing settings start roots excused after ∧ Broken settings start path ∨
      Blocked settings (Covered settings start roots)
        (fun path => Reachable start roots path ∧ Buildable settings start path) failure := by
  cases judged with
  | broken standing broken => exact .inl ⟨standing, broken⟩
  | blocked blocked => exact .inr blocked

mutual

theorem Compiles.judged (unmixed : Unmixed settings start roots) :
    Compiles settings depth path before events result after →
    Standing settings start roots excused before → Nested start roots 0 depth path before →
    (∀ failure, result = .error failure → ∀ other, Broken settings start other → excused other) →
    Judged settings start roots excused path (path ∈ after.compiled ∨ path ∈ after.inProgress)
      result after
  | .exhausted, _, _, _ => .blocked .exhausted
  | .cached known read, standing, _, _ => by
    have shown := readOutput_shows read
    obtain ⟨text, rfl⟩ := standing.covered.legible.read known read
    exact .done (standing.shown shown) (.inl (shown.compiled.symm ▸ known))
  | .cyclic _ started warned, standing, _, _ => by
    have shown := warn_shows warned
    exact .done (standing.shown shown) (.inr (shown.inProgress.symm ▸ started))
  | .unloaded _ _ load, standing, nested, _ => by
    refine .broken standing ⟨path, .refl, fun builds => ?_⟩
    obtain ⟨program, loads⟩ := builds.loads
    rw [(standing.covered.load_iff unmixed nested.reachable).mpr loads] at load
    cases load
  | .unfilled _ _ load filled, standing, nested, excuses => by
    have load := (standing.covered.load_iff unmixed nested.reachable).mp load
    have innermost := filled.effect.inProgress
    rcases (filled.judged unmixed standing.enter (nested.enter load) excuses).of_error with
      ⟨reached, broken⟩ | blocked
    · exact .broken (reached.abandon innermost (excuses _ rfl path broken)) broken
    · exact .blocked blocked
  | .unwritten _ _ load filled refused, standing, nested, excuses => by
    have load := (standing.covered.load_iff unmixed nested.reachable).mp load
    have innermost := filled.effect.inProgress
    obtain ⟨reached, _⟩ := (filled.judged unmixed standing.enter (nested.enter load)
      fun _ impossible => nomatch impossible).of_ok
    by_cases housed : Path.directory (settings.outputPath path) = ""
    · have broken : Broken settings start path := ⟨path, .refl, fun builds => builds.housed housed⟩
      obtain ⟨_, rfl⟩ := writeOutput_homeless housed refused
      exact .broken (reached.abandon innermost (excuses _ rfl path broken)) broken
    · have rooted := reached.covered.overlays.grows.directory.symm ▸ unmixed.rooted
      have unrecorded := fun recorded => housed (writeOutput_recorded rooted refused recorded)
      obtain ⟨_, none, _⟩ := writeOutput_refused refused
      exact .blocked
        (.refused reached.covered ⟨nested.reachable, ⟨_, load⟩, housed⟩ none unrecorded)
  | .written _ unstarted load filled wrote told, standing, nested, excuses => by
    have load := (standing.covered.load_iff unmixed nested.reachable).mp load
    have innermost := filled.effect.inProgress
    have shown := info_shows told
    obtain ⟨reached, imported⟩ := (filled.judged unmixed standing.enter (nested.enter load)
      fun _ impossible => nomatch impossible).of_ok
    obtain ⟨_, stores, rfl⟩ := writeOutput_ok wrote
    have finished := reached.finish unmixed.rooted ⟨⟨_, load⟩, stores.housed⟩ nested unstarted
      innermost (by
        rintro target ⟨program, span, name, load', member, rfl⟩
        cases load.symm.trans load'
        exact imported span name member) stores
    refine .done (finished.shown shown) (.inl ?_)
    rw [shown.compiled]
    exact List.mem_append_right _ List.mem_cons_self

theorem Fills.judged (unmixed : Unmixed settings start roots) :
    Fills settings depth file fragments before events result after →
    Standing settings start roots excused before →
    Inside start roots 0 depth file fragments before →
    (∀ failure, result = .error failure → ∀ other, Broken settings start other → excused other) →
    Judged settings start roots excused file
      (∀ span path, .site span path ∈ fragments → importTarget file path ∈ after.compiled ∨
        importTarget file path ∈ after.inProgress) result after
  | .nil, standing, _, _ => .done standing nofun
  | .text following, standing, inside, excuses => by
    refine (following.judged unmixed standing (inside.rest rfl) ?_).map ?_ _
    · rintro failure rfl
      exact excuses failure rfl
    · intro imported span path member
      rcases List.mem_cons.mp member with impossible | member
      · cases impossible
      · exact imported span path member
  | .failed imported, standing, inside, excuses => by
    have imports := inside.imports _ _ List.mem_cons_self
    rcases (imported.judged unmixed standing inside.site fun _ _ => excuses _ rfl).of_error with
      ⟨reached, broken⟩ | blocked
    · exact .broken reached (broken.of_imports imports)
    · rw [blocked.imported]
      exact .blocked blocked
  | .site imported following, standing, inside, excuses => by
    have inProgress := imported.effect.inProgress
    have further := following.effect
    obtain ⟨reached, first⟩ := (imported.judged unmixed standing inside.site
      fun _ impossible => nomatch impossible).of_ok
    refine (following.judged unmixed reached (inside.rest inProgress) ?_).map ?_ _
    · rintro failure rfl
      exact excuses failure rfl
    · intro others span path member
      rcases List.mem_cons.mp member with same | member
      · cases same
        rw [further.compiled, further.inProgress]
        exact first.imp_left (List.mem_append_left _)
      · exact others span path member

end

section
variable {settings : BuildSettings} {start : Workspace} {roots : List String}

theorem Unmixed.narrow (unmixed : Unmixed settings start roots)
    (within : ∀ root ∈ fewer, root ∈ roots) : Unmixed settings start fewer := by
  have wider {path : String} (reachable : Reachable start fewer path) :
      Reachable start roots path := by
    obtain ⟨root, member, leads⟩ := reachable
    exact ⟨root, within root member, leads⟩
  refine ⟨unmixed.rooted, unmixed.founded, fun path source => unmixed.normal path (wider source), ?_⟩
  intro path other program source load source'
  exact unmixed.apart path other program (wider source) load (wider source')

private theorem compile_judged {before : BuildState} (unmixed : Unmixed settings start roots)
    (standing : Standing settings start roots excused before) (idle : before.inProgress = [])
    (member : before.workspace.absolute path ∈ roots)
    (run : Yields (compile settings path) before result after)
    (excuses : ∀ failure, result = .error failure →
      ∀ other, Broken settings start other → excused other) :
    Judged settings start roots excused (before.workspace.absolute path)
      (before.workspace.absolute path ∈ after.compiled) result after ∧ after.inProgress = [] := by
  obtain ⟨events, called⟩ := compileWithin_traced (run.rest .get)
  have quiet := called.effect.inProgress.trans idle
  refine ⟨?_, quiet⟩
  have nested : Nested start roots 0 (depthLimit before.workspace.files)
      (before.workspace.absolute path) before := by
    refine ⟨⟨_, member, .refl⟩, ?_, Nat.zero_le _⟩
    rw [idle]
    exact nofun
  cases called.judged unmixed standing nested excuses with
  | done reached known =>
    rw [quiet] at known
    exact .done reached (known.resolve_right List.not_mem_nil)
  | broken reached broken => exact .broken reached broken
  | blocked blocked => exact .blocked blocked

/-- In a build, an attempt succeeds with its file compiled, or the file is broken. -/
theorem Attempts.judged (unmixed : Unmixed settings start roots)
    (attempts : Attempts settings before results after)
    (standing : Standing settings start roots (Broken settings start) before)
    (idle : before.inProgress = []) (within : ∀ path ∈ results.map Prod.fst, path ∈ roots) :
    Standing settings start roots (Broken settings start) after ∧ after.inProgress = [] ∧
      ∀ path result, (path, result) ∈ results →
        (∃ text, result = .ok text) ∧ path ∈ after.compiled ∨
          (∃ failure, result = .error failure) ∧ Broken settings start path := by
  induction attempts with
  | nil => exact ⟨standing, idle, fun _ _ member => absurd member List.not_mem_nil⟩
  | @cons path before result middle next results after called recorded shown others
      ih =>
    obtain ⟨first, within⟩ := List.forall_mem_cons.mp within
    obtain ⟨slashes, list, normal⟩ := unmixed.normal path ⟨path, first, .refl⟩
    have same : before.workspace.absolute path = path := normal.absolute_eq _
    have judged := compile_judged unmixed standing idle (same.symm ▸ first) called
      fun _ _ _ => id
    rw [same] at judged
    obtain ⟨judged, quiet⟩ := judged
    have further (reached : Standing settings start roots (Broken settings start) middle) :=
      ih (reached.shown shown) (shown.inProgress.trans quiet) within
    cases judged with
    | done reached known =>
      obtain ⟨standing, idle, verdicts⟩ := further reached
      refine ⟨standing, idle, fun other result' member => ?_⟩
      rcases List.mem_cons.mp member with same | member
      · cases same
        refine .inl ⟨⟨_, rfl⟩, ?_⟩
        rw [← shown.compiled] at known
        exact others.extends.subset known
      · exact verdicts other result' member
    | broken reached broken =>
      obtain ⟨standing, idle, verdicts⟩ := further reached
      refine ⟨standing, idle, fun other result' member => ?_⟩
      rcases List.mem_cons.mp member with same | member
      · cases same
        exact .inr ⟨⟨_, rfl⟩, broken⟩
      · exact verdicts other result' member
    | blocked blocked => exact absurd (recorded _ rfl) blocked.unrecorded

/-- All that a file leads to can be built, if it compiles with nothing compiled before. -/
theorem buildable_of_compile (unmixed : Unmixed settings start [start.absolute path])
    (run : Yields (compile settings path) (.fresh start) (.ok code) after)
    (leads : Relation.ReflTransGen (Imports start) (start.absolute path) other) :
    Buildable settings start other := by
  have standing : Standing settings start [start.absolute path] (fun _ => False) (.fresh start) :=
    .fresh
  obtain ⟨judged, idle⟩ := compile_judged unmixed standing rfl List.mem_cons_self run
    fun _ impossible => nomatch impossible
  obtain ⟨reached, known⟩ := judged.of_ok
  have member := reached.closed.compiled idle known (fun _ _ _ _ _ _ => id) leads
  exact reached.covered.buildable other member

/-- A file compiles with nothing compiled before, if a build has compiled it and all that it leads
to. -/
theorem compile_of_compiled (unmixed : Unmixed settings start [start.absolute path])
    (covered : Covered settings start roots state)
    (known : ∀ other, Relation.ReflTransGen (Imports start) (start.absolute path) other →
      other ∈ state.compiled) :
    ∃ code after, Yields (compile settings path) (.fresh start) (.ok code) after := by
  have run := yields_run (compile settings path) (.fresh start)
  have standing : Standing settings start [start.absolute path] (fun _ => True) (.fresh start) :=
    .fresh
  obtain ⟨judged, _⟩ := compile_judged unmixed standing rfl List.mem_cons_self run
    fun _ _ _ _ => trivial
  have reachable {other : String} (source : Reachable start [start.absolute path] other) :
      other ∈ state.compiled := by
    obtain ⟨root, member, leads⟩ := source
    rw [List.mem_singleton.mp member] at leads
    exact known other leads
  rcases result : ((compile settings path).run.run (.fresh start)).1 with failure | code
  · rw [result] at judged run
    rcases judged.of_error with ⟨_, other, leads, unbuildable⟩ | blocked
    · exact absurd (covered.buildable other (known other leads)) unbuildable
    · cases blocked with
      | exhausted => exact absurd rfl ((Session.start start).compile_ne nofun run)
      | refused covered' source refused _ =>
        obtain ⟨after, stores⟩ := covered'.overlays.stores covered.overlays
          (fun other member => reachable (covered'.reachable other member)) unmixed.rooted
          (reachable source.1) _
        exact absurd stores (refused after)
  · rw [result] at run
    exact ⟨code, _, run⟩

end

/-- Another file leads to this one and back. -/
def Circular (workspace : Workspace) (path : String) : Prop :=
  ∃ other, other ≠ path ∧ Relation.ReflTransGen (Imports workspace) path other ∧
    Relation.ReflTransGen (Imports workspace) other path

/-- Over files in which no output is read as a source, a build has an entry among its outputs if the
entry compiles with nothing compiled before. The reverse holds if no circle that the entry leads to
leads on to a file that cannot be built. -/
theorem build_verdict {workspace : Workspace} {entries : List String}
    (rooted : Path.isAbsolute workspace.directory = true) (founded : workspace.files.Founded)
    (apart : ∀ path other program, Reachable workspace (entries.map workspace.absolute) path →
      SourceFile.load workspace path = .ok program →
      Reachable workspace (entries.map workspace.absolute) other →
        workspace.location (settings.outputPath path) ≠ workspace.location other)
    (run : Yields (build settings .empty entries) (.fresh workspace) (.ok report) after)
    (member : entry ∈ entries) :
    ((∃ code alone, Yields (compile settings entry) (.fresh workspace) (.ok code) alone) →
      workspace.absolute entry ∈ report.outputs.map Prod.fst) ∧
    ((∀ path other,
        Relation.ReflTransGen (Imports workspace) (workspace.absolute entry) path →
        Circular workspace path → Relation.ReflTransGen (Imports workspace) path other →
          Buildable settings workspace other) →
      workspace.absolute entry ∈ report.outputs.map Prod.fst →
        ∃ code alone, Yields (compile settings entry) (.fresh workspace) (.ok code) alone) := by
  have unmixed : Unmixed settings workspace (entries.map workspace.absolute) :=
    ⟨rooted, founded, fun _ => Reachable.normal rooted, apart⟩
  have listed : workspace.absolute entry ∈ entries.map workspace.absolute :=
    List.mem_map_of_mem member
  have alone : Unmixed settings workspace [workspace.absolute entry] :=
    unmixed.narrow fun _ root => List.mem_singleton.mp root ▸ listed
  rcases build_attempts run with ⟨results, paths, attempts, same⟩ | ⟨_, _, impossible⟩
  · obtain rfl := Except.ok.inj same
    have paths : results.map Prod.fst = entries.map workspace.absolute := paths
    obtain ⟨standing, idle, verdicts⟩ := attempts.judged unmixed .fresh rfl (paths ▸ fun _ => id)
    rw [mem_outputs_noteAll]
    constructor
    · rintro ⟨code, after, compiled⟩
      rw [← paths] at listed
      obtain ⟨⟨path, result⟩, attempted, same⟩ := List.mem_map.mp listed
      have same : path = workspace.absolute entry := same
      rw [same] at attempted
      rcases verdicts _ _ attempted with ⟨⟨text, rfl⟩, _⟩ | ⟨_, other, leads, unbuildable⟩
      · exact ⟨text, attempted⟩
      · exact absurd (buildable_of_compile alone compiled leads) unbuildable
    · rintro sound ⟨text, attempted⟩
      rcases verdicts _ _ attempted with ⟨_, known⟩ | ⟨⟨_, impossible⟩, _⟩
      · refine compile_of_compiled alone standing.covered fun other leads => ?_
        refine standing.closed.compiled idle known ?_ leads
        rintro path target leads imports apart back ⟨other, further, unbuildable⟩
        exact unbuildable (sound path other leads ⟨target, apart.symm, .single imports, back⟩
          (further.head imports))
      · cases impossible
  · cases impossible

theorem Boxed.reachable (boxed : Boxed settings start box known)
    (given : ∀ root ∈ roots, root ∈ known) (source : Reachable start roots path) : path ∈ known := by
  obtain ⟨root, member, leads⟩ := source
  induction leads with
  | refl => exact given root member
  | tail _ imports ih =>
    obtain ⟨program, span, name, load, listed, rfl⟩ := imports
    exact boxed.closed _ ih program span name load listed

theorem Boxed.unmixed {start : Workspace} {paths : List String}
    (boxed : Boxed settings start box known) (rooted : Path.isAbsolute start.directory = true)
    (founded : start.files.Founded) (sound : ∀ path ∈ known, FileTree.hasNull path = false)
    (given : ∀ path ∈ paths.map start.absolute, path ∈ known) :
    Unmixed settings start (paths.map start.absolute) := by
  have reached {path : String} (source : Reachable start (paths.map start.absolute) path) :
      path ∈ known := boxed.reachable given source
  refine ⟨rooted, founded, fun path => Reachable.normal rooted, ?_⟩
  intro path other program source load source' same
  obtain ⟨output, slot⟩ := boxed.slot (reached source) load
  have absolute := boxed.rooted other (reached source')
  rcases boxed.seated other (reached source') with null | ⟨name, _, _, shallow, _⟩
  · rw [sound other (reached source')] at null
    cases null
  · rw [slot.location, Workspace.location, Workspace.rooted, if_pos (.inr absolute),
      shallow.location] at same
    cases same

theorem flat_founded (files : List (String × String)) : (flatProject files).files.Founded := by
  intro place name entry found
  rw [FileTree.get?, if_neg (by simp)] at found
  obtain ⟨before, after, same, _⟩ := List.lookup_eq_some_iff.mp found
  have listed : (place ++ [name], entry) ∈ (flatProject files).files.entries := by
    rw [same]
    simp
  obtain ⟨file, _, same⟩ := List.mem_map.mp listed
  have single : [file.1] = place ++ [name] := (Prod.mk.inj same).1
  cases place with
  | nil => rfl
  | cons part rest => simp at single

/-- The first two entries fail, and the last one is compiled as it is alone. -/
theorem build_verdict_mixed :
    Path.isAbsolute mixedProject.directory = true ∧ mixedProject.files.Founded ∧
    ∃ report after, Yields (build Session.singleSettings .empty ["b.as", "c.as", "a.as"])
        (.fresh mixedProject) (.ok report) after ∧
      (report.outputs.map Prod.fst = ["/a.as"] ∧ report.failed.map Prod.fst = ["/b.as", "/c.as"]) ∧
      ("/a.as" ∈ report.outputs.map Prod.fst ↔
        ∃ code alone, Yields (compile Session.singleSettings "a.as") (.fresh mixedProject)
          (.ok code) alone) := by
  have unmixed : Unmixed Session.singleSettings mixedProject
      (["b.as", "c.as", "a.as"].map mixedProject.absolute) :=
    mixed_boxed.unmixed (by decide) (flat_founded _) (by decide) (by decide)
  have tables : ((build Session.singleSettings .empty ["b.as", "c.as", "a.as"]).run.run
      (.fresh mixedProject)).1.toOption.map (fun report =>
        (report.outputs.map Prod.fst, report.failed.map Prod.fst)) =
      some (["/a.as"], ["/b.as", "/c.as"]) := by decide +kernel
  have run := yields_run (build Session.singleSettings .empty ["b.as", "c.as", "a.as"])
    (.fresh mixedProject)
  refine ⟨unmixed.rooted, unmixed.founded, ?_⟩
  rcases ended : ((build Session.singleSettings .empty ["b.as", "c.as", "a.as"]).run.run
    (.fresh mixedProject)).1 with failure | report
  · rw [ended] at tables
    cases tables
  · rw [ended] at run tables
    refine ⟨report, _, run, Prod.mk.inj (Option.some.inj tables), ?_⟩
    have lone {other : String}
        (leads : Relation.ReflTransGen (Imports mixedProject) "/a.as" other) : other = "/a.as" := by
      rcases leads.cases_head with same | ⟨_, ⟨program, span, name, load, member, _⟩, _⟩
      · exact same.symm
      · cases load_mixed.1.symm.trans load
        cases member
    have verdict := @build_verdict _ _ _ "a.as" _ _ unmixed.rooted unmixed.founded unmixed.apart run
      (by decide)
    refine ⟨verdict.2 ?_, verdict.1⟩
    rintro path other leads ⟨circle, apart, further, _⟩ _
    rw [lone leads] at apart further
    exact absurd (lone further) apart

/-- Two files that import each other. The first one also imports a file that is missing. -/
def brokenProject : Workspace :=
  flatProject [("a.as", "import(\"b.as\"); import(\"missing.as\");"), ("b.as", "import(\"a.as\");")]

private theorem broken_breaks : Breaks brokenProject :=
  ⟨rfl, by decide, flat_free (by decide), rfl, rfl, rfl⟩

theorem Legible.compile {before : BuildState} (legible : Legible settings before)
    (known : before.workspace.absolute path ∈ before.compiled)
    (run : Yields (Build.compile settings path) before result after) :
    (∃ text, result = .ok text) ∧ Shows before after := by
  have run := (run.rest .get).rest .get
  rw [if_pos (by simpa using known)] at run
  exact ⟨legible.read known run, readOutput_shows run⟩

theorem Shows.load (shown : Shows before after) :
    SourceFile.load after.workspace path = SourceFile.load before.workspace path := by
  apply SourceFile.load_congr
  unfold Workspace.read Workspace.rooted
  rw [shown.files, shown.directory]

namespace Breaks

variable {workspace : Workspace}

theorem boxed (breaks : Breaks workspace) :
    Boxed Session.singleSettings workspace "out" ["/a.as", "/b.as", "/missing.as"] := by
  obtain ⟨load, load', missing⟩ := breaks.loads
  refine ⟨breaks.free, by decide, ?_, ?_⟩
  · simp only [List.forall_mem_cons]
    exact ⟨Boxed.closed_of_load load (by decide), Boxed.closed_of_load load' (by decide),
      Boxed.closed_of_error missing, nofun⟩
  · simp only [List.forall_mem_cons]
    exact ⟨.inr ⟨"a.as", "a.js", by decide⟩, .inr ⟨"b.as", "b.js", by decide⟩,
      .inr ⟨"missing.as", "missing.js", by decide⟩, List.forall_mem_nil _⟩

theorem compile_first (breaks : Breaks workspace) : ∃ failure after,
    Yields (compile Session.singleSettings "/a.as") (.fresh workspace) (.error failure) after ∧
      Recorded failure ∧ after.compiled = ["/b.as"] ∧
      SourceFile.load after.workspace "/missing.as" = .error (.missingSource "/missing.as") := by
  obtain ⟨events, failure, _, after, called, missing, done, _, _, same⟩ := breaks.compiles_first
  have absolute : workspace.absolute "/a.as" = "/a.as" := by
    rw [Workspace.absolute, breaks.directory]
    decide
  have run := called.yields
  rw [← absolute] at run
  exact ⟨_, after, Yields.get.bind run, recorded_importFailure (.inr missing),
    called.effect.compiled.trans (by rw [done]; rfl),
    (breaks.boxed.load_eq (by decide) same).trans breaks.loads.2.2⟩

/-- The second file is reported as compiled. -/
theorem build (breaks : Breaks workspace) : ∃ report after,
    Yields (Build.build Session.singleSettings .empty ["a.as", "b.as"]) (.fresh workspace)
      (.ok report) after ∧ "/b.as" ∈ report.outputs.map Prod.fst ∧ after.compiled = ["/b.as"] ∧
      SourceFile.load after.workspace "/missing.as" = .error (.missingSource "/missing.as") := by
  obtain ⟨failure, middle, first, recorded, compiled, missing⟩ := breaks.compile_first
  have start : workspace.absolute "a.as" = "/a.as" := by
    rw [Workspace.absolute, breaks.directory]
    decide
  rw [← start] at first
  obtain ⟨next, shown, noted⟩ := @buildEntry_notes _ "a.as" _ _ .empty (.fresh workspace) first
    fun _ same => Except.error.inj same ▸ recorded
  have directory : next.workspace.directory = "/" :=
    shown.directory.trans ((compile_directory first).trans breaks.directory)
  have absolute : next.workspace.absolute "b.as" = "/b.as" ∧
      next.workspace.absolute "/b.as" = "/b.as" := by
    rw [Workspace.absolute, Workspace.absolute, directory]
    decide
  obtain ⟨_, session⟩ := (Session.start workspace).call_compile first
  have legible := (session.legible fun _ _ member => by cases member).shown shown
  have known : next.workspace.absolute "/b.as" ∈ next.compiled := by
    rw [absolute.2, shown.compiled, compiled]
    exact List.mem_singleton.mpr rfl
  have second := yields_run (compile Session.singleSettings "/b.as") next
  obtain ⟨⟨text, same⟩, shown'⟩ := legible.compile known second
  rw [same, ← absolute.1] at second
  obtain ⟨after, shown'', noted'⟩ := @buildEntry_notes _ _ _ _
    (Report.empty.note Session.singleSettings (workspace.absolute "a.as") (.error failure)) _ second
    fun _ impossible => nomatch impossible
  refine ⟨_, after, noted.bind (noted'.bind .pure), ?_, ?_, ?_⟩
  · rw [absolute.1]
    exact List.mem_singleton.mpr rfl
  · rw [shown''.compiled, absolute.1, shown'.compiled, shown.compiled, compiled]
  · rw [shown''.load, absolute.1, shown'.load, shown.load, missing]

end Breaks

/-- The second file is among the outputs after the first one has failed, and alone it fails. -/
theorem build_keeps_circle :
    (∃ report after, Yields (build Session.singleSettings .empty ["a.as", "b.as"])
        (.fresh brokenProject) (.ok report) after ∧ "/b.as" ∈ report.outputs.map Prod.fst) ∧
      ¬ ∃ code alone, Yields (compile Session.singleSettings "b.as") (.fresh brokenProject)
        (.ok code) alone := by
  constructor
  · obtain ⟨report, after, run, kept, _⟩ := broken_breaks.build
    exact ⟨report, after, run, kept⟩
  · rintro ⟨code, alone, run⟩
    have unmixed : Unmixed Session.singleSettings brokenProject (["b.as"].map brokenProject.absolute) :=
      broken_breaks.boxed.unmixed (by decide) (flat_founded _) (by decide) (by decide)
    have absolute : brokenProject.absolute "b.as" = "/b.as" := by decide
    obtain ⟨load, load', missing⟩ := broken_breaks.loads
    have leads : Relation.ReflTransGen (Imports brokenProject) (brokenProject.absolute "b.as")
        "/missing.as" := by
      rw [absolute]
      refine .head ⟨_, _, "a.as", load', List.mem_cons_self, rfl⟩ (.single ?_)
      exact ⟨_, ⟨⟨1, 17⟩, ⟨1, 37⟩⟩, "missing.as", load, by decide, rfl⟩
    obtain ⟨program, load⟩ := (buildable_of_compile unmixed run leads).loads
    cases missing.symm.trans load

end Build

end ScriptKit
