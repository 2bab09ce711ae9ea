import ScriptKit.Proofs.Build.Rendering

/-!
The order of the entries of a build. In a project without circles of imports, every order of the same
entries gives the same report, compiles the same files and leaves the same files behind, also where
entries fail with some of their imports written.
-/
namespace ScriptKit.Build

section
variable {settings : BuildSettings} {start : Workspace} {roots bound : List String}

theorem Attempts.overlays (rooted : Path.isAbsolute start.directory = true)
    (attempts : Attempts settings before results after)
    (overlays : Overlays settings start before.compiled before.workspace) :
    Overlays settings start after.compiled after.workspace := by
  induction attempts with
  | nil => exact overlays
  | cons called recorded shown others ih =>
    obtain ⟨events, called⟩ := compileWithin_traced (called.rest .get)
    rcases called.overlays rooted overlays with reached | ⟨failure, rfl, unrecorded⟩
    · apply ih
      rw [shown.compiled]
      exact reached.shown shown.files shown.directory
    · exact absurd (recorded failure rfl) unrecorded

theorem Independent.renders (independent : Independent settings start roots)
    (normal : ∀ path, Reachable start roots path → ∃ slashes list, Path.Normal path slashes list)
    (source : Reachable start roots path) :
    ∃ writes result, Renders settings start path writes result :=
  @Independent.renders_below _ _ _ _ (2 * start.files.entries.length + 1) [] independent normal
    source List.nodup_nil nofun (by simp)

private theorem compile_follows {before : BuildState}
    (horizon : Horizon settings start roots bound finish)
    (within : Within settings start roots bound before) (idle : before.inProgress = [])
    (member : path ∈ roots) (renders : Renders settings start path writes expected)
    (run : Yields (compile settings path) before result after)
    (bounded : Bounded bound writes after) :
    Follows settings start roots bound before writes expected result after ∧
      after.inProgress = [] := by
  obtain ⟨slashes, list, normal⟩ := horizon.normal path ⟨path, member, .refl⟩
  obtain ⟨events, called⟩ := compileWithin_traced (run.rest .get)
  rw [Workspace.absolute, normal.absolute_eq] at called
  refine ⟨called.follows horizon within ⟨⟨path, member, .refl⟩, ?_, Nat.zero_le _⟩ renders bounded,
    called.effect.inProgress.trans idle⟩
  rw [idle]
  exact List.forall_mem_nil _

/-- Compiling a file writes another one. -/
def Writes (settings : BuildSettings) (start : Workspace) (path other : String) : Prop :=
  ∃ writes result, Renders settings start path writes result ∧ other ∈ writes.map Prod.fst

theorem Attempts.follows (horizon : Horizon settings start roots bound finish)
    (attempts : Attempts settings before results after)
    (within : Within settings start roots bound before) (idle : before.inProgress = [])
    (listed : ∀ path ∈ results.map Prod.fst, path ∈ roots)
    (bounded : (∀ path ∈ after.compiled, path ∈ bound) ∨
      ∀ path ∈ roots, ∀ other, Writes settings start path other → other ∈ bound) :
    Within settings start roots bound after ∧ after.inProgress = [] ∧
      (∀ path result, (path, result) ∈ results →
        ∃ writes, Renders settings start path writes result) ∧
      ∀ other, other ∈ after.compiled ↔ other ∈ before.compiled ∨
        ∃ path ∈ results.map Prod.fst, Writes settings start path other := by
  induction attempts with
  | nil =>
    refine ⟨within, idle, fun _ _ member => absurd member List.not_mem_nil, fun other => ?_⟩
    simp
  | @cons path before result middle next results after called recorded shown others
      ih =>
    obtain ⟨first, listed⟩ := List.forall_mem_cons.mp listed
    obtain ⟨writes, expected, renders⟩ :=
      horizon.independent.renders horizon.normal ⟨path, first, .refl⟩
    have bounded' : Bounded bound writes middle := by
      rcases bounded with all | all
      · refine .inl fun other member => all other (others.extends.subset ?_)
        exact shown.compiled.symm ▸ member
      · exact .inr fun other member => all path first other ⟨writes, expected, renders, member⟩
    obtain ⟨follows, quiet⟩ := compile_follows horizon within idle first renders called bounded'
    rcases follows with ⟨rfl, tracks⟩ | ⟨failure, rfl, blocked⟩
    · obtain ⟨reached, known⟩ := tracks.within within bounded'
      obtain ⟨final, quiet, results', compiled⟩ := ih
        ⟨reached.shown shown, shown.compiled.symm ▸ known⟩ (shown.inProgress.trans quiet) listed
        bounded
      refine ⟨final, quiet, fun other result' member => ?_, fun other => ?_⟩
      · rcases List.mem_cons.mp member with same | member
        · cases same
          exact ⟨writes, renders⟩
        · exact results' other result' member
      · rw [compiled, shown.compiled, tracks.compiled, or_assoc]
        simp only [List.map_cons, List.mem_cons, exists_eq_or_imp]
        refine or_congr_right (or_congr_left ⟨?_, ?_⟩)
        · intro member
          exact ⟨writes, result, renders, member⟩
        · rintro ⟨writes', result', renders', member⟩
          exact (renders'.unique renders).1 ▸ member
    · exact absurd (recorded failure rfl) blocked.unrecorded

theorem Rendered.get?_output (rendered : Rendered settings start roots state)
    (known : path ∈ state.compiled) : ∃ writes code, Renders settings start path writes (.ok code) ∧
      state.workspace.files.get? (start.location (settings.outputPath path)) =
        some (.file code.toUTF8) := by
  obtain ⟨writes, code, renders, found, _⟩ := rendered.held path known
  refine ⟨writes, code, renders, ?_⟩
  have located := (FileTree.locate_eq_ok.mp (FileTree.read_eq_ok.mp found).2).2.2
  rw [rendered.overlays.grows.rooted] at located
  exact located

/-- The files are known from what is compiled. -/
theorem Rendered.get?_eq {one two : BuildState} (rendered : Rendered settings start roots one)
    (rendered' : Rendered settings start roots two)
    (same : ∀ path, path ∈ one.compiled ↔ path ∈ two.compiled) (place : Location) :
    one.workspace.files.get? place = two.workspace.files.get? place := by
  by_cases isOutput : AtOutput settings start one.compiled place
  · obtain ⟨path, known, rfl⟩ := isOutput
    obtain ⟨_, code, renders, found⟩ := rendered.get?_output known
    obtain ⟨_, code', renders', found'⟩ := rendered'.get?_output ((same path).mp known)
    cases (renders.unique renders').2
    rw [found, found']
  by_cases above : AboveOutput settings start one.compiled place
  · obtain ⟨path, known, passes⟩ := above
    rw [rendered.overlays.directory place ⟨path, known, passes⟩,
      rendered'.overlays.directory place ⟨path, (same path).mp known, passes⟩]
  · rw [rendered.overlays.kept place isOutput above]
    refine (rendered'.overlays.kept place ?_ ?_).symm
    · rintro ⟨path, known, at'⟩
      exact isOutput ⟨path, (same path).mpr known, at'⟩
    · rintro ⟨path, known, passes⟩
      exact above ⟨path, (same path).mpr known, passes⟩

private theorem mem_results {results : List (String × Except Failure String)}
    (verdicts : ∀ path result, (path, result) ∈ results →
      ∃ writes, Renders settings start path writes result) :
    (path, result) ∈ results ↔ path ∈ results.map Prod.fst ∧
      ∃ writes, Renders settings start path writes result := by
  constructor
  · intro member
    exact ⟨List.mem_map_of_mem member, verdicts path result member⟩
  · rintro ⟨listed, writes, renders⟩
    obtain ⟨⟨_, result'⟩, member, rfl⟩ := List.mem_map.mp listed
    obtain ⟨writes', renders'⟩ := verdicts _ result' member
    exact (renders.unique renders').2 ▸ member

private theorem results_functional {results : List (String × Except Failure String)}
    (verdicts : ∀ path result, (path, result) ∈ results →
      ∃ writes, Renders settings start path writes result) :
    ∀ one ∈ results, ∀ two ∈ results, one.1 = two.1 → one = two := by
  intro one member two member' key
  obtain ⟨_, renders⟩ := verdicts one.1 one.2 member
  obtain ⟨_, renders'⟩ := verdicts two.1 two.2 member'
  exact Prod.ext key ((key ▸ renders).unique renders').2

/-- A build does not end early, if the failures of its files are recorded and the bound has all that
they write. -/
theorem not_aborts {failure : Failure} (horizon : Horizon settings start roots bound finish)
    (written : ∀ path ∈ roots, ∀ other, Writes settings start path other → other ∈ bound)
    (recorded : ∀ path ∈ roots, ∀ writes failure,
      Renders settings start path writes (.error failure) → Recorded failure)
    (listed : ∀ path ∈ paths, path ∈ roots) :
    ¬ Aborts settings (.fresh start) paths failure after := by
  rintro ⟨unrecorded, results, path, later, middle, rfl, attempts, failed⟩
  obtain ⟨earlier, last⟩ := List.forall_mem_append.mp listed
  have root := last path List.mem_cons_self
  obtain ⟨within, idle, _⟩ := attempts.follows horizon ⟨.fresh, nofun⟩ rfl earlier (.inr written)
  obtain ⟨writes, expected, renders⟩ :=
    horizon.independent.renders horizon.normal ⟨path, root, .refl⟩
  have bounded : ∀ other ∈ writes.map Prod.fst, other ∈ bound := fun other member =>
    written path root other ⟨writes, expected, renders, member⟩
  obtain ⟨follows, _⟩ :=
    compile_follows horizon within idle root renders failed (.inr bounded)
  rcases follows with ⟨rfl, _⟩ | ⟨_, same, blocked⟩
  · exact unrecorded (recorded path root writes failure renders)
  · cases same
    cases blocked with
    | exhausted =>
      obtain ⟨_, session⟩ := (Session.start start).attempts attempts
      exact session.compile_ne nofun failed rfl
    | refused holds member refused _ =>
      obtain ⟨after, stores⟩ := holds.1.overlays.stores horizon.overlays holds.2
        horizon.independent.rooted (bounded _ member) _
      exact refused after stores

end

/-- In a project without circles of imports, where no two files have one output and no output is read
as a source, a build that returns does so for every order of its entries, if all that is missing at the
start is still missing at its end. The other report has the same tables, the same files are compiled,
and the files are the same at every place. -/
theorem build_reordered {workspace : Workspace} {entries entries' : List String}
    (independent : Independent settings workspace (entries.map workspace.absolute))
    (same : ∀ entry, entry ∈ entries ↔ entry ∈ entries')
    (run : Yields (build settings .empty entries) (.fresh workspace) (.ok report) after)
    (missing : ∀ path, Reachable workspace (entries.map workspace.absolute) path →
      SourceFile.load workspace path = .error (.missingSource path) →
        SourceFile.load after.workspace path = .error (.missingSource path)) :
    ∃ report' after', Yields (build settings .empty entries') (.fresh workspace) (.ok report') after' ∧
      report'.outputs.Perm report.outputs ∧ report'.failed.Perm report.failed ∧
      after'.compiled.Perm after.compiled ∧
      ∀ place, after'.workspace.files.get? place = after.workspace.files.get? place := by
  rcases build_attempts run with ⟨results, paths, attempts, ended⟩ | ⟨_, _, impossible⟩
  · obtain rfl := Except.ok.inj ended
    have paths : results.map Prod.fst = entries.map workspace.absolute := paths
    have horizon : Horizon settings workspace (entries.map workspace.absolute) after.compiled
        after.workspace :=
      ⟨independent, fun _ => Reachable.normal independent.rooted,
        attempts.overlays independent.rooted (.nil workspace), missing⟩
    have start : Within settings workspace (entries.map workspace.absolute) after.compiled
        (.fresh workspace) := ⟨.fresh, nofun⟩
    obtain ⟨⟨rendered, _⟩, _, verdicts, compiled⟩ :=
      attempts.follows horizon start rfl (paths ▸ fun _ => id) (.inl fun _ => id)
    have written : ∀ path ∈ entries.map workspace.absolute, ∀ other,
        Writes settings workspace path other → other ∈ after.compiled := by
      intro path member other writes
      exact (compiled other).mpr (.inr ⟨path, paths.symm ▸ member, writes⟩)
    have roots : ∀ path, path ∈ entries'.map workspace.absolute ↔
        path ∈ entries.map workspace.absolute := by
      simp only [List.mem_map, same, implies_true]
    obtain ⟨result', after', run'⟩ : ∃ result' after',
        Yields (build settings .empty entries') (.fresh workspace) result' after' :=
      ⟨_, _, yields_run _ _⟩
    rcases build_attempts run' with ⟨results', paths', attempts', rfl⟩ | ⟨failure, aborts, _⟩
    · have paths' : results'.map Prod.fst = entries'.map workspace.absolute := paths'
      have keys (path : String) : path ∈ results'.map Prod.fst ↔ path ∈ results.map Prod.fst := by
        rw [paths, paths', roots]
      obtain ⟨⟨rendered', _⟩, _, verdicts', compiled'⟩ := attempts'.follows horizon start rfl
        (fun path member => (roots path).mp (paths' ▸ member)) (.inr written)
      have members (path : String) : path ∈ after'.compiled ↔ path ∈ after.compiled := by
        rw [compiled, compiled']
        simp only [keys]
      obtain ⟨outputs, failed⟩ := @Report.noteAll_perm settings results' results
        (results_functional verdicts') fun (path, result) => (mem_results verdicts').trans
          ((and_congr_left' (keys path)).trans (mem_results verdicts).symm)
      refine ⟨_, after', run', outputs, failed, ?_, rendered'.get?_eq rendered members⟩
      obtain ⟨_, session⟩ := (Session.start workspace).attempts attempts
      obtain ⟨_, session'⟩ := (Session.start workspace).attempts attempts'
      exact (List.perm_ext_iff_of_nodup session'.orderly.1.once session.orderly.1.once).mpr members
    · refine absurd aborts (not_aborts horizon written ?_ fun path => (roots path).mp)
      intro path member writes failure renders
      rw [← paths] at member
      exact attempts.recorded ((mem_results verdicts).mpr ⟨member, writes, renders⟩)
  · cases impossible

theorem Separate.independent (separate : Separate settings workspace roots) :
    Independent settings workspace roots where
  rooted := separate.rooted
  acyclic := separate.acyclic
  distinct path other _ _ source _ source' _ := separate.distinct path other source source'
  apart path other _ source _ source' := separate.apart path other source source'

theorem Attempts.inlines {workspace : Workspace} {paths : List String}
    (separate : Separate settings workspace (paths.map workspace.absolute))
    (missing : MissingStay settings workspace (paths.map workspace.absolute))
    (session : Session settings events [] before)
    (refined : Refined settings workspace (paths.map workspace.absolute) before)
    (attempts : Attempts settings before results after)
    (listed : ∀ path ∈ results.map Prod.fst, path ∈ paths) :
    (∃ events', Session settings events' [] after) ∧
      Refined settings workspace (paths.map workspace.absolute) after ∧
      ∀ path result, (path, result) ∈ results → Inlines workspace (workspace.absolute path) result := by
  induction attempts generalizing events with
  | nil => exact ⟨⟨_, session⟩, refined, fun _ _ member => absurd member List.not_mem_nil⟩
  | cons called recorded shown others ih =>
    obtain ⟨first, listed⟩ := List.forall_mem_cons.mp listed
    obtain ⟨⟨_, session⟩, refined, inlines⟩ :=
      compile_refines separate missing session refined first called
    obtain ⟨session, refined, others⟩ := ih (.shown session shown)
      (refined.shown shown.files shown.directory shown.compiled) listed
    refine ⟨session, refined, fun path result member => ?_⟩
    rcases List.mem_cons.mp member with same | member
    · cases same
      exact inlines
    · exact others path result member

private theorem pair_build : ∃ report after,
    Yields (build (pairSettings "out") .empty ["p.as", "q.as"]) (.fresh pairProject) (.ok report) after ∧
      Written (pairSettings "out") pairProject ["/p.as", "/q.as"] after.workspace ∧
      report.outputs = [("/q.as", "/out/q.js")] ∧ report.failed.map Prod.fst = ["/p.as"] := by
  have paths : ["/p.as", "/q.as"].map pairProject.absolute = ["/p.as", "/q.as"] := by decide
  have given : ∀ root ∈ ["/p.as", "/q.as"].map pairProject.absolute, root ∈ pairPaths := by decide
  have separate := pair_separate (by decide : "out" ∈ ["lib", "out"]) given
  have missing := pair_missingStay given
  have single : Inlines pairProject "/q.as" (.ok "") := .loaded load_single .nil
  obtain ⟨result, after, run⟩ : ∃ result after, Yields (build (pairSettings "out") .empty
      ["p.as", "q.as"]) (.fresh pairProject) result after := ⟨_, _, yields_run _ _⟩
  rcases build_attempts run with ⟨results, listed, attempts, rfl⟩ | ⟨failure, aborts, _⟩
  · have listed : results.map Prod.fst = ["/p.as", "/q.as"] := listed
    obtain ⟨_, refined, inlines⟩ :=
      attempts.inlines separate missing (.start pairProject) .fresh (listed ▸ fun _ => id)
    obtain ⟨⟨_, first⟩, others, rfl, rfl, following⟩ := List.map_eq_cons_iff.mp listed
    obtain ⟨⟨_, second⟩, others, rfl, rfl, last⟩ := List.map_eq_cons_iff.mp following
    obtain rfl := List.map_eq_nil_iff.mp last
    obtain rfl := (inlines _ first List.mem_cons_self).unique pair_inlines
    obtain rfl := (inlines _ second (List.mem_cons_of_mem _ List.mem_cons_self)).unique single
    exact ⟨_, after, run, paths ▸ refined.written, by decide⟩
  · obtain ⟨unrecorded, results, path, later, middle, same, attempts, failed⟩ := aborts
    have listed : ∀ other ∈ results.map Prod.fst ++ path :: later, other ∈ ["/p.as", "/q.as"] := by
      rw [← same]
      decide
    obtain ⟨earlier, last⟩ := List.forall_mem_append.mp listed
    have member := last path List.mem_cons_self
    obtain ⟨⟨_, session⟩, refined, _⟩ :=
      attempts.inlines separate missing (.start pairProject) .fresh earlier
    obtain ⟨_, _, inlines⟩ := compile_refines separate missing session refined member failed
    simp only [List.mem_cons, List.not_mem_nil, or_false] at member
    rcases member with rfl | rfl
    · cases inlines.unique pair_inlines
      exact absurd (.inl ⟨_, rfl⟩) unrecorded
    · cases inlines.unique single

/-- The first file fails after the second one, which it imports, is written. -/
theorem build_reordered_pair :
    Independent (pairSettings "out") pairProject (["p.as", "q.as"].map pairProject.absolute) ∧
    (∀ entry, entry ∈ ["p.as", "q.as"] ↔ entry ∈ ["q.as", "p.as"]) ∧
    ∃ report after report' after',
      (Yields (build (pairSettings "out") .empty ["p.as", "q.as"]) (.fresh pairProject)
        (.ok report) after ∧ SourceFile.load after.workspace "/lib" = .error (.missingSource "/lib")) ∧
      (report.outputs = [("/q.as", "/out/q.js")] ∧ report.failed.map Prod.fst = ["/p.as"]) ∧
      Yields (build (pairSettings "out") .empty ["q.as", "p.as"]) (.fresh pairProject)
        (.ok report') after' ∧
      report'.outputs.Perm report.outputs ∧ report'.failed.Perm report.failed ∧
      after'.compiled.Perm after.compiled ∧
      ∀ place, after'.workspace.files.get? place = after.workspace.files.get? place := by
  have given : ∀ root ∈ ["p.as", "q.as"].map pairProject.absolute, root ∈ pairPaths := by decide
  have independent := (pair_separate (by decide : "out" ∈ ["lib", "out"]) given).independent
  have same : ∀ entry, entry ∈ ["p.as", "q.as"] ↔ entry ∈ ["q.as", "p.as"] := by
    simp [or_comm]
  obtain ⟨report, after, run, written, tables⟩ := pair_build
  have missing (path : String)
      (source : Reachable pairProject (["p.as", "q.as"].map pairProject.absolute) path) :=
    pair_missingStay given path after.workspace source written
  obtain ⟨report', after', run', conclusion⟩ := build_reordered independent same run missing
  refine ⟨independent, same, report, after, report', after', ⟨run, ?_⟩, tables, run', conclusion⟩
  refine missing "/lib" ⟨"/p.as", by decide, .single ?_⟩ load_absent
  exact ⟨_, ⟨⟨1, 17⟩, ⟨1, 30⟩⟩, "lib", load_pair, by decide, rfl⟩

/-- A file with one import fails with what that import gives. -/
theorem compile_circle {before : BuildState} {failure : Failure}
    (absolute : before.workspace.absolute file = file) (idle : before.inProgress = [])
    (unknown : file ∉ before.compiled ∧ importTarget file name ∉ before.compiled)
    (apart : importTarget file name ≠ file)
    (load : SourceFile.load before.workspace file = .ok (circleProgram name stop))
    (unloaded : SourceFile.load before.workspace (importTarget file name) = .error failure) :
    Yields (compile settings file) before
      (.error (importFailure file ⟨⟨1, 1⟩, ⟨1, stop⟩⟩ name failure)) before := by
  have unstarted : importTarget file name ∉ (before.enter file).inProgress := by
    change importTarget file name ∉ file :: before.inProgress
    rw [idle]
    exact List.not_mem_cons_of_ne_of_not_mem apart List.not_mem_nil
  have inner : Compiles settings (2 * before.workspace.files.entries.length + 1)
      (importTarget file name) (before.enter file) _ (.error failure) _ :=
    .unloaded unknown.2 unstarted unloaded
  have outer : Compiles settings (depthLimit before.workspace.files) file before _ _ _ :=
    .unfilled unknown.1 (idle ▸ List.not_mem_nil) load (.failed inner)
  refine Yields.get.bind ?_
  dsimp only
  rw [absolute]
  exact outer.yields

/-- The state once the failure of an entry is told. -/
def told (state : BuildState) (path : String) (failure : Failure) : BuildState :=
  let message := failure.message
  state.mapWorkspace (·.printErrorLine (Color.red.paint s!"Error compiling {path}: {message}"))

private theorem buildEntry_failed {before : BuildState}
    (absolute : before.workspace.absolute entry = path)
    (called : Yields (compile settings path) before (.error (.reported error)) middle) :
    Yields (buildEntry settings report entry) before
      (.ok (report.note settings path (.error (.reported error))))
      (told middle path (.reported error)) := by
  subst absolute
  refine Yields.get.bind (called.bind_error.caught ?_)
  exact Yields.modify.bind .pure

/-- Whatever an action gives is in line with what is known of its result. -/
theorem yields_of_toOption {action : BuildAction α} {view : α → β}
    (known : (action.run.run before).1.toOption.map view = some seen) :
    ∃ value, Yields action before (.ok value) (action.run.run before).2 ∧ view value = seen := by
  have run := yields_run action before
  rcases ended : (action.run.run before).1 with failure | value
  · rw [ended] at known
    cases known
  · rw [ended] at known run
    exact ⟨value, run, Option.some.inj known⟩

/-- The state that an entry leaves behind which is built after the first one has failed. -/
def afterNext (settings : BuildSettings) (start : Workspace) (file next : String) (failure : Failure) :
    Except Failure Report × BuildState :=
  (buildEntry settings (Report.note settings .empty file (.error failure)) next).run.run
    (told (.fresh start) file failure)

/-- A build of a file with an import that fails, and of one more file. -/
theorem build_circle {start : Workspace} {failure : Failure}
    (absolute : start.absolute entry = file ∧ start.absolute file = file)
    (apart : importTarget file name ≠ file)
    (load : SourceFile.load start file = .ok (circleProgram name stop))
    (unloaded : SourceFile.load start (importTarget file name) = .error failure)
    (same : importFailure file ⟨⟨1, 1⟩, ⟨1, stop⟩⟩ name failure = .reported error)
    (known : (afterNext settings start file next (.reported error)).1.toOption.map Report.failed =
      some failed) :
    ∃ report, Yields (build settings .empty [entry, next]) (.fresh start) (.ok report)
      (afterNext settings start file next (.reported error)).2 ∧ report.failed = failed := by
  have called : Yields (compile settings file) (.fresh start) (.error (.reported error))
      (.fresh start) :=
    same ▸ compile_circle absolute.2 rfl ⟨List.not_mem_nil, List.not_mem_nil⟩ apart load unloaded
  have first : Yields (buildEntry settings .empty entry) (.fresh start) _ _ :=
    buildEntry_failed absolute.1 called
  obtain ⟨report, second, kept⟩ := @yields_of_toOption _ _ (told (.fresh start) file (.reported error))
    failed (buildEntry settings (Report.note settings .empty file (.error (.reported error))) next)
    Report.failed known
  exact ⟨report, first.bind (second.bind .pure), kept⟩

/-- The second file imports what is the directory of the outputs, once there is one. -/
def libraryProject : Workspace := flatProject [("q.as", ""), ("r.as", "import(\"lib\");")]

private theorem load_library {workspace : Workspace}
    (text : SourceFile.read workspace "/r.as" = .ok "import(\"lib\");") :
    SourceFile.load workspace "/r.as" = .ok (circleProgram "lib" 14) :=
  load_circle text (by decide +kernel)

/-- Why the import fails before there is an output, and after it. -/
def libraryFailure (made : Bool) : Failure :=
  importFailure "/r.as" ⟨⟨1, 1⟩, ⟨1, 14⟩⟩ "lib" (bif made then pairFailure else .missingSource "/lib")

private theorem library_unloaded {workspace : Workspace} {failure : Failure}
    (unread : SourceFile.read workspace "/lib" = .error failure) :
    SourceFile.load workspace (importTarget "/r.as" "lib") = .error failure := by
  change SourceFile.load workspace "/lib" = _
  rw [SourceFile.load, unread]
  rfl

/-- The file that imports the directory comes first. -/
theorem library_build {start : Workspace} {made : Bool}
    (absolute : start.absolute "r.as" = "/r.as" ∧ start.absolute "/r.as" = "/r.as")
    (text : SourceFile.read start "/r.as" = .ok "import(\"lib\");")
    (unread : SourceFile.read start "/lib" =
      .error (bif made then pairFailure else .missingSource "/lib"))
    (known : (afterNext (pairSettings "lib") start "/r.as" "q.as"
      (libraryFailure made)).1.toOption.map Report.failed = some failed) :
    ∃ report, Yields (build (pairSettings "lib") .empty ["r.as", "q.as"]) (.fresh start) (.ok report)
      (afterNext (pairSettings "lib") start "/r.as" "q.as" (libraryFailure made)).2 ∧
        report.failed = failed := by
  cases made with
  | false =>
    exact build_circle absolute (by decide) (load_library text) (library_unloaded unread) rfl known
  | true =>
    exact build_circle absolute (by decide) (load_library text) (library_unloaded unread) rfl known

private theorem library_imports (known : file ∈ ["/q.as", "/r.as", "/lib"])
    (imports : Imports libraryProject file target) : file = "/r.as" ∧ target = "/lib" := by
  obtain ⟨program, span, path, load, member, rfl⟩ := imports
  simp only [List.mem_cons, List.not_mem_nil, or_false] at known
  rcases known with rfl | rfl | rfl
  · have empty : SourceFile.load libraryProject "/q.as" = .ok ⟨⟨⟨1, 1⟩, ⟨1, 1⟩⟩, []⟩ :=
      load_empty (by decide +kernel)
    cases empty.symm.trans load
    cases member
  · cases (load_library (by decide +kernel)).symm.trans load
    cases List.mem_singleton.mp member
    exact ⟨rfl, rfl⟩
  · have missing : SourceFile.load libraryProject "/lib" = .error (.missingSource "/lib") := rfl
    cases missing.symm.trans load

private theorem library_independent :
    Independent (pairSettings "lib") libraryProject ["/q.as", "/r.as"] := by
  have reached {path : String} (source : Reachable libraryProject ["/q.as", "/r.as"] path) :
      path ∈ ["/q.as", "/r.as", "/lib"] := by
    obtain ⟨root, member, leads⟩ := source
    induction leads with
    | refl => exact List.mem_append_left ["/lib"] member
    | tail _ imports ih =>
      rw [(library_imports ih imports).2]
      decide
  have places : ∀ path ∈ ["/q.as", "/r.as", "/lib"], ∀ other ∈ ["/q.as", "/r.as", "/lib"],
      (libraryProject.location ((pairSettings "lib").outputPath path) =
        libraryProject.location ((pairSettings "lib").outputPath other) → path = other) ∧
      libraryProject.location ((pairSettings "lib").outputPath path) ≠
        libraryProject.location other := by decide +kernel
  refine ⟨by decide, ?_, ?_, ?_⟩
  · intro path source circle
    obtain ⟨next, first, _⟩ := Relation.TransGen.head'_iff.mp circle
    obtain ⟨rfl, _⟩ := library_imports (reached source) first
    obtain ⟨file, leads, last⟩ := Relation.TransGen.tail'_iff.mp circle
    obtain ⟨root, member, way⟩ := source
    exact absurd (library_imports (reached ⟨root, member, way.trans leads⟩) last).2 (by decide)
  · intro path other _ _ source _ source' _
    exact (places path (reached source) other (reached source')).1
  · intro path other _ source _ source'
    exact (places path (reached source) other (reached source')).2

theorem library_missing : ∃ report,
    Yields (build (pairSettings "lib") .empty ["r.as", "q.as"]) (.fresh libraryProject) (.ok report)
      (afterNext (pairSettings "lib") libraryProject "/r.as" "q.as" (libraryFailure false)).2 ∧
    report.failed = [("/r.as", (libraryFailure false).message)] :=
  library_build (by decide) (by decide +kernel) rfl (by decide +kernel)

private theorem library_builds : ∃ report after report' after',
    Yields (build (pairSettings "lib") .empty ["q.as", "r.as"]) (.fresh libraryProject)
      (.ok report) after ∧
    Yields (build (pairSettings "lib") .empty ["r.as", "q.as"]) (.fresh libraryProject)
      (.ok report') after' ∧
    report.failed = [("/r.as", (libraryFailure true).message)] ∧
    report'.failed = [("/r.as", (libraryFailure false).message)] := by
  -- The output of the first file makes the directory that the import of the second one finds.
  let middle := ((buildEntry (pairSettings "lib") .empty "q.as").run.run (.fresh libraryProject)).2
  have state : (middle.workspace.absolute "r.as" = "/r.as" ∧
        middle.workspace.absolute "/r.as" = "/r.as") ∧ middle.inProgress = [] ∧
      ("/r.as" ∉ middle.compiled ∧ "/lib" ∉ middle.compiled) ∧
      SourceFile.read middle.workspace "/r.as" = .ok "import(\"lib\");" ∧
      SourceFile.read middle.workspace "/lib" = .error pairFailure := by decide +kernel
  obtain ⟨absolute, idle, unknown, text, unread⟩ := state
  obtain ⟨one, first, written⟩ :=
    @yields_of_toOption _ _ (.fresh libraryProject) [] (buildEntry (pairSettings "lib") .empty "q.as")
      Report.failed (by decide +kernel)
  have called : Yields (compile (pairSettings "lib") "/r.as") middle
      (.error (libraryFailure true)) middle :=
    compile_circle absolute.2 idle unknown (by decide) (load_library text) (library_unloaded unread)
  have second : Yields (buildEntry (pairSettings "lib") one "r.as") middle _ _ :=
    buildEntry_failed absolute.1 called
  obtain ⟨two, run', kept⟩ := library_missing
  refine ⟨_, _, _, _, first.bind (second.bind .pure), run', ?_, kept⟩
  simp only [Report.note, written]
  rfl

/-- What the directory of the outputs comes to be between the two entries decides how the second one
fails. -/
theorem build_order_seen :
    Independent (pairSettings "lib") libraryProject (["q.as", "r.as"].map libraryProject.absolute) ∧
    ∃ report after report' after',
      Yields (build (pairSettings "lib") .empty ["q.as", "r.as"]) (.fresh libraryProject)
        (.ok report) after ∧
      Yields (build (pairSettings "lib") .empty ["r.as", "q.as"]) (.fresh libraryProject)
        (.ok report') after' ∧
      ¬ report'.failed.Perm report.failed := by
  have roots : ["q.as", "r.as"].map libraryProject.absolute = ["/q.as", "/r.as"] := by decide
  obtain ⟨report, after, report', after', run, run', failed, failed'⟩ := library_builds
  refine ⟨roots ▸ library_independent, report, after, report', after', run, run', fun same => ?_⟩
  rw [failed, failed', List.singleton_perm_singleton] at same
  exact absurd same (by decide)

end ScriptKit.Build
