import ScriptKit.Proofs.Build.Attempts
import ScriptKit.Proofs.Build.Flattening
import ScriptKit.Proofs.Build.Termination
import ScriptKit.Proofs.Build.Verdict
import ScriptKit.Proofs.Program.ImportSites

/-!
The order in which a build writes. When a file is written, everything that it imports is written
already or was in progress when the file was started; so each file comes after what it imports, as
long as imports do not lead in circles.
-/
namespace ScriptKit.Build

/-- The state in which the event starts on the file. A file in progress is not started again. -/
def start? (path : String) : Event → Option BuildState
  | .entered other state => if other = path ∧ path ∉ state.inProgress then some state else none
  | .finished _ _ => none

/-- The state in which the file was started last. -/
def lastStart (path : String) (events : List Event) : Option BuildState :=
  (events.filterMap (start? path)).getLast?

/-- The file was in progress whenever a compilation was entered. -/
def OpenEntries (file : String) (events : List Event) : Prop :=
  ∀ path state, .entered path state ∈ events → file ∈ state.inProgress

theorem OpenEntries.append (first : OpenEntries file events) (second : OpenEntries file events') :
    OpenEntries file (events ++ events') := by
  intro path state member
  rcases List.mem_append.mp member with member | member
  · exact first path state member
  · exact second path state member

theorem OpenEntries.entered (known : file ∈ state.inProgress) (entries : OpenEntries file events) :
    OpenEntries file (.entered path state :: events) := by
  intro path' state' member
  rcases List.mem_cons.mp member with same | member
  · cases same
    exact known
  · exact entries path' state' member

theorem OpenEntries.nil : OpenEntries file [] := fun _ _ member => by cases member

theorem OpenEntries.finished : OpenEntries file [.finished path code] := by
  intro path' state member
  cases List.mem_singleton.mp member

/-- While the file is in progress, nothing starts it. -/
theorem lastStart_append (unstarted : path ∉ state.inProgress) (entries : OpenEntries path events) :
    lastStart path (front ++ .entered path state :: events) = some state := by
  have first : start? path (.entered path state) = some state := if_pos ⟨rfl, unstarted⟩
  have others : events.filterMap (start? path) = [] := by
    rw [List.filterMap_eq_nil_iff]
    intro event member
    cases event with
    | entered other state' =>
      refine if_neg ?_
      rintro ⟨_, fresh⟩
      exact fresh (entries other state' member)
    | finished other code => rfl
  rw [lastStart, List.filterMap_append, List.filterMap_cons_some first, others, List.getLast?_append]
  rfl

mutual

/-- What is in progress stays so all the while. -/
theorem Compiles.open : Compiles settings depth path before events result after →
    file ∈ before.inProgress → OpenEntries file events
  | .exhausted, known => .entered known .nil
  | .cached _ _, known => .entered known .nil
  | .cyclic _ _ _, known => .entered known .nil
  | .unloaded _ _ _, known => .entered known .nil
  | .unfilled _ _ _ filled, known => .entered known (filled.open (List.mem_cons_of_mem _ known))
  | .unwritten _ _ _ filled _, known => .entered known (filled.open (List.mem_cons_of_mem _ known))
  | .written _ _ _ filled _ _, known =>
    .entered known ((filled.open (List.mem_cons_of_mem _ known)).append .finished)

theorem Fills.open : Fills settings depth source fragments before events result after →
    file ∈ before.inProgress → OpenEntries file events
  | .nil, _ => .nil
  | .text following, known => following.open known
  | .failed imported, known => imported.open known
  | .site imported following, known =>
    (imported.open known).append (following.open (imported.effect.inProgress ▸ known))

end

/-- The import of the target was followed from a state with these files in progress, and what came of
it is that the target is compiled, or it was one of them. -/
def Followed (outer compiled : List String) (events : List Event) (target : String) : Prop :=
  (∃ state, .entered target state ∈ events ∧ state.inProgress = outer) ∧
    (target ∈ compiled ∨ target ∈ outer)

theorem Followed.mono (followed : Followed outer compiled events target)
    (more : compiled ⊆ compiled') (within : events ⊆ events') :
    Followed outer compiled' events' target := by
  obtain ⟨⟨state, entered, same⟩, done⟩ := followed
  exact ⟨⟨state, within entered, same⟩, done.imp_left (more ·)⟩

/-- A compilation that gives a text, of a file that is compiled then, or was in progress. -/
theorem Compiles.followed (called : Compiles settings depth path before events (.ok code) after) :
    Followed before.inProgress after.compiled events path := by
  cases called with
  | cached known read =>
    refine ⟨⟨before, List.mem_cons_self, rfl⟩, .inl ?_⟩
    rw [(readOutput_shows read).compiled]
    exact known
  | cyclic unknown started warned => exact ⟨⟨before, List.mem_cons_self, rfl⟩, .inr started⟩
  | written unknown unstarted load filled wrote told =>
    refine ⟨⟨before, List.mem_cons_self, rfl⟩, .inl ?_⟩
    rw [(info_shows told).compiled]
    exact List.mem_append_right _ List.mem_cons_self

/-- All imports of a file that is filled are followed. -/
theorem Fills.followed : Fills settings depth file fragments before events result after →
    result = .ok code → ∀ span name, .site span name ∈ fragments →
      Followed before.inProgress after.compiled events (importTarget file name)
  | .nil, _ => by
    intro span name member
    cases member
  | .text following, same => by
    obtain ⟨_, found, _⟩ := map_eq_ok same
    intro span name member
    rcases List.mem_cons.mp member with impossible | member
    · cases impossible
    · exact following.followed found span name member
  | .failed _, same => by cases same
  | .site imported following, same => by
    obtain ⟨_, found, _⟩ := map_eq_ok same
    intro span name member
    rcases List.mem_cons.mp member with first | member
    · cases first
      exact imported.followed.mono following.effect.mem_compiled (List.subset_append_left _ _)
    · rw [← imported.effect.inProgress]
      exact (following.followed found span name member).mono (List.Subset.refl _)
        (List.subset_append_right _ _)

/-- The file may be written after the events: it was loaded where it was started, and each of its
imports was followed. -/
def Due (known : List String) (events : List Event) (path : String) : Prop :=
  ∃ state program, lastStart path events = some state ∧
    SourceFile.load state.workspace path = .ok program ∧
    ∀ span name, .site span name ∈ program.emit →
      Followed (path :: state.inProgress) (known ++ (finished events).map Prod.fst) events
        (importTarget path name)

/-- After the past, every file is written when it is due. -/
def InTurn (known : List String) (past events : List Event) : Prop :=
  ∀ front path code back, events = front ++ .finished path code :: back →
    Due known (past ++ front) path

namespace InTurn

theorem nil : InTurn known past [] := by
  intro front path code back split
  cases front <;> cases split

theorem append (first : InTurn known past events) (second : InTurn known (past ++ events) events') :
    InTurn known past (events ++ events') := by
  intro front path code back split
  rcases List.append_eq_append_iff.mp split with ⟨more, rfl, rest⟩ | ⟨more, rfl, rest⟩
  · rw [← List.append_assoc]
    exact second more path code back rest
  · cases more with
    | nil =>
      have due := second [] path code back rest.symm
      rwa [List.append_nil, List.append_nil] at due
    | cons event more =>
      cases rest
      exact first front path code more rfl

theorem entered (rest : InTurn known (past ++ [.entered path state]) events) :
    InTurn known past (.entered path state :: events) := by
  refine append (?_ : InTurn known past [.entered path state]) rest
  intro front path' code back split
  cases front with
  | nil => cases split
  | cons event front =>
    cases front <;> cases split

theorem finished (due : Due known past path) : InTurn known past [.finished path code] := by
  intro front path' code' back split
  cases front with
  | nil =>
    cases split
    rw [List.append_nil]
    exact due
  | cons event front =>
    cases front <;> cases split

end InTurn

private theorem compiled_enter {before : BuildState}
    (compiled : before.compiled = known ++ (finished past).map Prod.fst) (path : String) :
    (before.enter path).compiled =
      known ++ (finished (past ++ [.entered path before])).map Prod.fst := by
  rw [finished_append, finished, finished, List.append_nil]
  exact compiled

mutual

theorem Compiles.inTurn : Compiles settings depth path before events result after →
    before.compiled = known ++ (finished past).map Prod.fst → InTurn known past events
  | .exhausted, _ => .entered .nil
  | .cached _ _, _ => .entered .nil
  | .cyclic _ _ _, _ => .entered .nil
  | .unloaded _ _ _, _ => .entered .nil
  | .unfilled _ _ _ filled, compiled => .entered (filled.inTurn (compiled_enter compiled _))
  | .unwritten _ _ _ filled _, compiled => .entered (filled.inTurn (compiled_enter compiled _))
  | .written unknown unstarted load filled wrote told, compiled => by
    have compiled := compiled_enter compiled path
    refine .entered ((filled.inTurn compiled).append (.finished ⟨_, _, ?_, load, ?_⟩))
    · rw [List.append_assoc]
      exact lastStart_append unstarted (filled.open List.mem_cons_self)
    · intro span name member
      refine (filled.followed rfl span name member).mono ?_ (List.subset_append_right _ _)
      rw [filled.effect.compiled, finished_append, List.map_append, ← List.append_assoc, ← compiled]
      exact List.Subset.refl _

theorem Fills.inTurn : Fills settings depth file fragments before events result after →
    before.compiled = known ++ (finished past).map Prod.fst → InTurn known past events
  | .nil, _ => .nil
  | .text following, compiled => following.inTurn compiled
  | .failed imported, compiled => imported.inTurn compiled
  | .site imported following, compiled => by
    refine (imported.inTurn compiled).append (following.inTurn ?_)
    rw [imported.effect.compiled, compiled, finished_append, List.map_append, List.append_assoc]

end

/-- Calls one after the other, on the files at the paths, with all that happens in them. In between,
only the console changes. -/
inductive Series (settings : BuildSettings) : BuildState → List String → List Event → BuildState →
    Prop where
  | nil : Series settings before [] [] before
  | cons (called : Compiles settings (depthLimit before.workspace.files)
        (before.workspace.absolute path) before events result middle)
      (shown : Shows middle next) (others : Series settings next paths events' after) :
      Series settings before (path :: paths) (events ++ events') after

namespace Series

theorem append (first : Series settings before paths events middle)
    (second : Series settings middle paths' events' after) :
    Series settings before (paths ++ paths') (events ++ events') after := by
  induction first with
  | nil => exact second
  | cons called shown others ih =>
    rw [List.append_assoc]
    exact .cons called shown (ih second)

theorem single (run : Yields (Build.compile settings path) before result after) :
    ∃ events, Series settings before [path] events after := by
  obtain ⟨events, called⟩ := compileWithin_traced (run.rest .get)
  exact ⟨events ++ [], .cons called (.refl after) .nil⟩

theorem of_attempts (attempts : Attempts settings before results after) :
    ∃ events, Series settings before (results.map Prod.fst) events after := by
  induction attempts with
  | nil => exact ⟨[], .nil⟩
  | cons run recorded shown others ih =>
    obtain ⟨events, called⟩ := compileWithin_traced (run.rest .get)
    obtain ⟨events', others⟩ := ih
    exact ⟨events ++ events', .cons called shown others⟩

/-- A build calls on the files of its entries, or of the first ones if it is cut short. -/
theorem of_build (run : Yields (Build.build settings report entries) before result after) :
    ∃ paths events, paths <+: entries.map before.workspace.absolute ∧
      (∀ report', result = .ok report' → paths = entries.map before.workspace.absolute) ∧
      Series settings before paths events after := by
  rcases build_attempts run with ⟨results, paths, attempts, _⟩ | ⟨failure, aborts, rfl⟩
  · obtain ⟨events, series⟩ := of_attempts attempts
    exact ⟨_, events, paths ▸ List.prefix_rfl, fun _ _ => paths, series⟩
  · obtain ⟨_, results, path, later, middle, paths, attempts, failed⟩ := aborts
    obtain ⟨events, series⟩ := of_attempts attempts
    obtain ⟨events', last⟩ := single failed
    refine ⟨_, _, ?_, fun _ same => (by cases same), series.append last⟩
    rw [paths]
    exact ⟨later, by simp⟩

theorem session (series : Series settings before paths events' after)
    (earlier : Session settings events disturbances before) :
    Session settings (events ++ events') disturbances after := by
  induction series generalizing events with
  | nil => rwa [List.append_nil]
  | cons called shown others ih =>
    rw [← List.append_assoc]
    exact ih (.shown (.compile earlier called) shown)

theorem compiled (series : Series settings before paths events after) :
    after.compiled = before.compiled ++ (finished events).map Prod.fst := by
  induction series with
  | nil => exact (List.append_nil _).symm
  | cons called shown others ih =>
    rw [ih, shown.compiled, called.effect.compiled, finished_append, List.map_append,
      List.append_assoc]

theorem inTurn (series : Series settings before paths events after)
    (compiled : before.compiled = known ++ (finished past).map Prod.fst) :
    InTurn known past events := by
  induction series generalizing past with
  | nil => exact .nil
  | cons called shown others ih =>
    refine (called.inTurn compiled).append (ih ?_)
    rw [shown.compiled, called.effect.compiled, compiled, finished_append, List.map_append,
      List.append_assoc]

/-- Every compilation in the calls was entered along imports of files from the start. -/
theorem led (series : Series settings before paths events after)
    (kept : Kept settings start before) (idle : before.inProgress = []) (within : events ⊆ all)
    (normal : ∀ path ∈ paths, ∃ slashes list, Path.Normal path slashes list)
    (entered : .entered target state ∈ events) :
    ∃ root ∈ paths, Leads start all root state.inProgress target := by
  induction series with
  | nil => cases entered
  | cons called shown others ih =>
    obtain ⟨first, rest⟩ := List.append_subset.mp within
    obtain ⟨⟨slashes, list, named⟩, normal⟩ := List.forall_mem_cons.mp normal
    rcases List.mem_append.mp entered with entered | entered
    · refine ⟨_, List.mem_cons_self, ?_⟩
      rw [Workspace.absolute, named.absolute_eq] at called
      exact called.led kept first (idle ▸ .here) target state entered
    · have reached := ((called.inert kept).1).shown shown
      have idle := shown.inProgress.trans (called.effect.inProgress.trans idle)
      obtain ⟨root, member, leads⟩ := ih reached idle rest normal entered
      exact ⟨root, List.mem_cons_of_mem _ member, leads⟩

end Series

/-- A file from the start that a build has loaded can be loaded at the start. -/
theorem Descends.imports (founded : start.files.Founded)
    (normal : ∃ slashes list, Path.Normal file slashes list)
    (descends : Descends start events outer file target) : Imports start file target := by
  obtain ⟨state, content, program, span, name, _, _, found, present, load, member, rfl⟩ := descends
  obtain ⟨slashes, list, normal⟩ := normal
  refine ⟨program, span, name, ?_, member, rfl⟩
  rw [Workspace.read, state.workspace.rooted_normal normal] at found
  rw [Workspace.location, start.rooted_normal normal] at present
  have read : start.read file = state.workspace.read file := by
    rw [Workspace.read, Workspace.read, start.rooted_normal normal,
      state.workspace.rooted_normal normal, found]
    exact founded.read normal found present
  rw [SourceFile.load_congr read, load]

/-- Each file on the stack leads to the target. -/
theorem Leads.reaches (founded : start.files.Founded)
    (normal : ∃ slashes list, Path.Normal root slashes list)
    (leads : Leads start events root stack target) :
    Relation.ReflTransGen (Imports start) root target ∧
      ∀ file ∈ stack, Relation.TransGen (Imports start) file target := by
  induction leads with
  | here => exact ⟨.refl, List.forall_mem_nil _⟩
  | step outer descends ih =>
    obtain ⟨reached, stacked⟩ := ih
    have imports := descends.imports founded (outer.target_normal.elim (· ▸ normal) id)
    refine ⟨reached.tail imports, List.forall_mem_cons.mpr ⟨.single imports, ?_⟩⟩
    exact fun file member => (stacked file member).tail imports

/-- A build writes each file once and after what it imports. The program of a file is the one that
was there when the file was started; an import of another file that is written comes before, unless
that file was in progress then, as it never is where imports lead in no circle. -/
theorem Session.build_ordered (session : Session settings events disturbances before)
    (run : Yields (Build.build settings report entries) before result after) :
    ∃ paths events', paths <+: entries.map before.workspace.absolute ∧
      (∀ report', result = .ok report' → paths = entries.map before.workspace.absolute) ∧
      Series settings before paths events' after ∧
      after.compiled = before.compiled ++ (finished events').map Prod.fst ∧ after.compiled.Nodup ∧
      ∀ front path code back, events' = front ++ .finished path code :: back →
        ∃ state program, lastStart path front = some state ∧
          SourceFile.load state.workspace path = .ok program ∧
          ∀ span name, program.Part (.statement (.importFile span name)) →
            importTarget path name ∈ (finished events').map Prod.fst →
            (importTarget path name ∈ (finished front).map Prod.fst ∨
              importTarget path name ∈ path :: state.inProgress) ∧
            (Undisturbed settings disturbances →
              Path.isAbsolute before.workspace.directory = true → before.workspace.files.Founded →
              (∀ file, Reachable before.workspace (entries.map before.workspace.absolute) file →
                ¬ Relation.TransGen (Imports before.workspace) file file) →
              importTarget path name ∈ (finished front).map Prod.fst) := by
  obtain ⟨paths, events', listed, whole, series⟩ := Series.of_build run
  have once := (series.session session).orderly.1.once
  refine ⟨paths, events', listed, whole, series, series.compiled, once, ?_⟩
  intro front path code back split
  have known : before.compiled = before.compiled ++ (finished []).map Prod.fst :=
    (List.append_nil _).symm
  obtain ⟨state, program, started, load, followed⟩ := series.inTurn known front path code back split
  refine ⟨state, program, started, load, ?_⟩
  intro span name part written
  obtain ⟨⟨inner, entered, stack⟩, done⟩ := followed span name (Program.mem_emit_site.mpr part)
  rw [series.compiled, List.nodup_append] at once
  have ordered : importTarget path name ∈ (finished front).map Prod.fst ∨
      importTarget path name ∈ path :: state.inProgress := by
    refine done.imp_left fun known => (List.mem_append.mp known).resolve_left ?_
    intro known
    exact once.2.2 _ known _ written rfl
  refine ⟨ordered, fun undisturbed rooted founded acyclic => ordered.resolve_right ?_⟩
  intro circular
  have normal : ∀ path ∈ paths, ∃ slashes list, Path.Normal path slashes list := by
    intro path member
    obtain ⟨given, _, rfl⟩ := List.mem_map.mp (listed.subset member)
    exact Path.absolute_normal rooted given
  obtain ⟨root, given, leads⟩ := series.led (session.kept undisturbed).1 session.idle
    (List.Subset.refl _) normal (by rw [split]; exact List.mem_append_left _ entered)
  obtain ⟨reached, stacked⟩ := leads.reaches founded (normal root given)
  rw [stack] at stacked
  exact acyclic _ ⟨root, listed.subset given, reached⟩ (stacked _ circular)

/-- The first of two files leads to the second, and that is all. -/
theorem Duo.acyclic {outer inner : String} (duo : Duo outer inner program program')
    (reachable : Reachable (duoProject outer inner) ["/p.as"] file) :
    ¬ Relation.TransGen (Imports (duoProject outer inner)) file file := by
  intro circle
  obtain ⟨next, imports, back⟩ := Relation.TransGen.head'_iff.mp circle
  obtain ⟨rfl, rfl⟩ := duo.imports (duo.reachable reachable) imports
  rcases back.cases_head with same | ⟨_, imports, _⟩
  · exact absurd same (by decide)
  · exact absurd (duo.imports (.inr rfl) imports).1 (by decide)

private theorem yields_compile : Yields (Build.compile settings path) before result after ↔
    Yields (compileWithin settings (depthLimit before.workspace.files)
      (before.workspace.absolute path)) before result after :=
  ⟨fun run => run.rest .get,
    fun run => Yields.get.bind run⟩

/-- An entry is compiled by its absolute path. -/
theorem build_single {before : BuildState}
    (rooted : Path.isAbsolute before.workspace.directory = true)
    (compiled : ((Build.compile settings entry).run.run before).1 = .ok code) (report : Report) :
    ∃ report' after, Yields (Build.build settings report [entry]) before (.ok report') after := by
  obtain ⟨slashes, list, normal⟩ := Path.absolute_normal rooted entry
  have again : before.workspace.absolute (before.workspace.absolute entry) =
      before.workspace.absolute entry := normal.absolute_eq _
  have run := yields_compile.mp (yields_run (Build.compile settings entry) before)
  rw [compiled, ← again] at run
  obtain ⟨after, _, noted⟩ := @buildEntry_notes _ _ _ _ report _ (yields_compile.mpr run)
    fun _ same => by cases same
  exact ⟨_, after, noted.bind .pure⟩

/-- A file that gets its text and was neither compiled nor in progress is written at the end, with the
imports of its program followed before. -/
theorem Compiles.last (called : Compiles settings depth path before events result after)
    (success : result = .ok code) (unknown : path ∉ before.compiled)
    (unstarted : path ∉ before.inProgress)
    (load : SourceFile.load before.workspace path = .ok program) :
    ∃ front, events = front ++ [.finished path code] ∧ lastStart path front = some before ∧
      ∀ span name, .site span name ∈ program.emit →
        importTarget path name ∈ path :: before.inProgress ∨
          importTarget path name ∈ before.compiled ++ (finished front).map Prod.fst := by
  cases called with
  | exhausted => cases success
  | cached known _ => exact absurd known unknown
  | cyclic _ started _ => exact absurd started unstarted
  | unloaded => cases success
  | unfilled => cases success
  | unwritten => cases success
  | written _ _ load' filled wrote told =>
    cases success
    cases load.symm.trans load'
    refine ⟨_, (List.cons_append ..).symm, ?_, ?_⟩
    · change lastStart path ([] ++ .entered path before :: _) = some before
      exact lastStart_append unstarted (filled.open List.mem_cons_self)
    · intro span name member
      refine (filled.followed rfl span name member).2.symm.imp_right fun known => ?_
      rw [filled.effect.compiled] at known
      exact known

/-- The second file is written before the first one, which imports it. -/
theorem Session.build_ordered_duo :
    ∃ report after events front code back,
      Yields (Build.build (pairSettings "out") .empty ["p.as"])
        (.fresh (duoProject twiceText twoText)) (.ok report) after ∧
      Series (pairSettings "out") (.fresh (duoProject twiceText twoText)) ["/p.as"] events after ∧
      events = front ++ .finished "/p.as" code :: back ∧
      "/q.as" ∈ (finished events).map Prod.fst ∧ "/q.as" ∈ (finished front).map Prod.fst := by
  obtain ⟨report, after, run⟩ := build_single (by decide) duo_twice.compile_eq .empty
  obtain ⟨paths, events, _, whole, series, _, _, ordered⟩ := build_ordered (.start _) run
  have only : paths = ["/p.as"] :=
    (whole report rfl).trans (congrArg (fun path => [path]) (duo_absolute twiceText twoText))
  subst only
  have absolute : (duoProject twiceText twoText).absolute "/p.as" = "/p.as" :=
    (by decide : Path.absolute "/" "/p.as" = "/p.as")
  have calls := series
  cases calls with
  | cons called shown others =>
    cases others
    have alone := yields_compile.mp (yields_run (Build.compile (pairSettings "out") "p.as")
      (.fresh (duoProject twiceText twoText)))
    rw [duo_twice.compile_eq] at alone
    rw [BuildState.fresh, absolute, ← duo_absolute twiceText twoText] at called
    obtain ⟨success, _⟩ := called.yields.unique alone
    rw [duo_absolute] at called
    obtain ⟨front, rfl, started, imports⟩ := called.last success (by simp) (by simp) duo_twice.first
    obtain ⟨state, program, started', load, orders⟩ :=
      ordered front "/p.as" _ [] (List.append_nil _)
    cases started.symm.trans started'
    cases duo_twice.first.symm.trans load
    have site : .site ⟨⟨1, 1⟩, ⟨1, 15⟩⟩ "q.as" ∈ twiceProgram.emit := by
      simp [twiceProgram, Program.emit, Statement.emitAll, Statement.emit]
    rw [← pair_targets.1]
    have known := (imports _ _ site).resolve_left (by rw [pair_targets.1]; decide)
    have written (code : String) : importTarget "/p.as" "q.as" ∈
        (finished (front ++ [.finished "/p.as" code] ++ [])).map Prod.fst := by
      rw [List.append_nil, finished_append, List.map_append]
      exact List.mem_append_left _ known
    refine ⟨report, after, _, front, _, [], run, series, List.append_nil _, written _, ?_⟩
    refine (orders _ _ (Program.mem_emit_site.mp site) (written _)).2 ?_ (by decide)
      (flat_founded [("q.as", twoText), ("p.as", twiceText)]) ?_
    · intro state workspace member
      cases member
    · intro file reachable
      exact duo_twice.acyclic (duo_absolute twiceText twoText ▸ reachable)

end ScriptKit.Build
