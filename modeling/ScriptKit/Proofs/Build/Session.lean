import ScriptKit.Proofs.Build.Inlining
import ScriptKit.Proofs.Build.Storing

/-!
Sequences of calls on one build, in a workspace that others may change in between. Whatever fails on
the way, no file is ever in progress twice or after it was compiled, the compiled files only become
more, and each of them has its text in its output, unless another one's output took its place.
-/
namespace ScriptKit.Build

/-- No file is in progress twice, none is compiled twice, and none is both. -/
structure Orderly (state : BuildState) : Prop where
  progressing : state.inProgress.Nodup
  once : state.compiled.Nodup
  apart : ∀ path ∈ state.inProgress, path ∉ state.compiled

namespace Orderly

theorem fresh (workspace : Workspace) : Orderly (.fresh workspace) := ⟨.nil, .nil, nofun⟩

theorem congr (orderly : Orderly before) (compiled : after.compiled = before.compiled)
    (inProgress : after.inProgress = before.inProgress) : Orderly after := by
  obtain ⟨progressing, once, apart⟩ := orderly
  rw [← compiled] at once apart
  rw [← inProgress] at progressing apart
  exact ⟨progressing, once, apart⟩

theorem enter (orderly : Orderly state) (unknown : path ∉ state.compiled)
    (unstarted : path ∉ state.inProgress) : Orderly (state.enter path) := by
  refine ⟨List.nodup_cons.mpr ⟨unstarted, orderly.progressing⟩, orderly.once, ?_⟩
  intro other member
  rcases List.mem_cons.mp member with rfl | member
  · exact unknown
  · exact orderly.apart other member

theorem leave (orderly : Orderly state) : Orderly state.leave := by
  refine ⟨orderly.progressing.sublist (List.drop_sublist 1 _), orderly.once, ?_⟩
  intro other member
  exact orderly.apart other (List.mem_of_mem_drop member)

/-- The innermost file is finished. -/
theorem finish (orderly : Orderly state) (innermost : state.inProgress = path :: outer) :
    Orderly (state.record path).leave := by
  obtain ⟨progressing, once, apart⟩ := orderly
  rw [innermost] at progressing apart
  obtain ⟨closed, progressing⟩ := List.nodup_cons.mp progressing
  have remaining : (state.record path).leave.inProgress = outer := by
    rw [BuildState.leave, BuildState.record, innermost]
    rfl
  refine ⟨remaining ▸ progressing, ?_, ?_⟩
  · refine List.nodup_append.mpr ⟨once, List.pairwise_singleton _ path, ?_⟩
    intro known member other same
    rw [List.mem_singleton.mp same]
    rintro rfl
    exact apart known List.mem_cons_self member
  · intro other member known
    rw [remaining] at member
    rcases List.mem_append.mp known with known | same
    · exact apart other (List.mem_cons_of_mem path member) known
    · exact closed (List.mem_singleton.mp same ▸ member)

end Orderly

/-- Every compilation was entered in an orderly state. -/
def OrderlyEntries (events : List Event) : Prop :=
  ∀ path state, .entered path state ∈ events → Orderly state

theorem OrderlyEntries.append (first : OrderlyEntries events) (second : OrderlyEntries events') :
    OrderlyEntries (events ++ events') := by
  intro path state member
  rcases List.mem_append.mp member with member | member
  · exact first path state member
  · exact second path state member

theorem OrderlyEntries.entered (orderly : Orderly before) (entries : OrderlyEntries events) :
    OrderlyEntries (.entered path before :: events) := by
  intro path' state member
  rcases List.mem_cons.mp member with same | member
  · cases same
    exact orderly
  · exact entries path' state member

mutual

theorem Compiles.orderly : Compiles settings depth path before events result after →
    Orderly before → Orderly after ∧ OrderlyEntries events
  | .exhausted, orderly => ⟨orderly, .entered orderly nofun⟩
  | .cached _ read, orderly => by
    have shown := readOutput_shows read
    exact ⟨orderly.congr shown.compiled shown.inProgress, .entered orderly nofun⟩
  | .cyclic _ _ warned, orderly => by
    have shown := warn_shows warned
    exact ⟨orderly.congr shown.compiled shown.inProgress, .entered orderly nofun⟩
  | .unloaded _ _ _, orderly => ⟨orderly, .entered orderly nofun⟩
  | .unfilled unknown unstarted _ filled, orderly => by
    obtain ⟨reached, entries⟩ := filled.orderly (orderly.enter unknown unstarted)
    exact ⟨reached.leave, .entered orderly entries⟩
  | .unwritten unknown unstarted _ filled refused, orderly => by
    obtain ⟨reached, entries⟩ := filled.orderly (orderly.enter unknown unstarted)
    obtain ⟨_, _, _, rfl⟩ := writeOutput_refused refused
    exact ⟨reached.leave.congr rfl rfl, .entered orderly entries⟩
  | .written unknown unstarted _ filled wrote told, orderly => by
    obtain ⟨reached, entries⟩ := filled.orderly (orderly.enter unknown unstarted)
    have innermost := filled.effect.inProgress
    have shown := info_shows told
    obtain ⟨_, _, rfl⟩ := writeOutput_ok wrote
    have finished := Orderly.finish (reached.congr rfl rfl) innermost
    exact ⟨finished.congr shown.compiled shown.inProgress,
      .entered orderly (entries.append nofun)⟩

theorem Fills.orderly : Fills settings depth file fragments before events result after →
    Orderly before → Orderly after ∧ OrderlyEntries events
  | .nil, orderly => ⟨orderly, nofun⟩
  | .text following, orderly => following.orderly orderly
  | .failed imported, orderly => imported.orderly orderly
  | .site imported following, orderly => by
    obtain ⟨middle, entries⟩ := imported.orderly orderly
    obtain ⟨after, entries'⟩ := following.orderly middle
    exact ⟨after, entries.append entries'⟩

end

/-- The compiled files whenever a compilation was entered. -/
def compiledLists : List Event → List (List String)
  | [] => []
  | .entered _ state :: events => state.compiled :: compiledLists events
  | .finished _ _ :: events => compiledLists events

private theorem compiledLists_append (events events' : List Event) :
    compiledLists (events ++ events') = compiledLists events ++ compiledLists events' := by
  induction events with
  | nil => rfl
  | cons event events ih =>
    cases event <;> simp [compiledLists, ih]

/-- From `before` through the events to `after`, compiled files are only added. -/
def Ascends (before : List String) (events : List Event) (after : List String) : Prop :=
  (before :: (compiledLists events ++ [after])).Pairwise (· <+: ·)

namespace Ascends

theorem of_le (extends' : before <+: after) : Ascends before [] after := by
  simpa [Ascends, compiledLists] using extends'

theorem entered (ascends : Ascends state.compiled events after) :
    Ascends state.compiled (.entered path state :: events) after := by
  refine List.pairwise_cons.mpr ⟨?_, ascends⟩
  intro list member
  rcases List.mem_cons.mp member with rfl | member
  · exact List.prefix_rfl
  · exact List.rel_of_pairwise_cons ascends member

theorem finished : Ascends before [.finished path code] (before ++ [path]) :=
  of_le (List.prefix_append before [path])

theorem trans (first : Ascends before events middle) (second : Ascends middle events' after) :
    Ascends before (events ++ events') after := by
  unfold Ascends at *
  rw [← List.cons_append] at first
  obtain ⟨left, _, below⟩ := List.pairwise_append.mp first
  obtain ⟨above, right⟩ := List.pairwise_cons.mp second
  rw [compiledLists_append, List.append_assoc, ← List.cons_append]
  refine List.pairwise_append.mpr ⟨left, right, ?_⟩
  intro list member list' member'
  exact (below list member middle List.mem_cons_self).trans (above list' member')

end Ascends

mutual

theorem Compiles.ascends : Compiles settings depth path before events result after →
    Ascends before.compiled events after.compiled
  | .exhausted => (Ascends.of_le List.prefix_rfl).entered
  | .cached _ read => by
    rw [(readOutput_shows read).compiled]
    exact (Ascends.of_le List.prefix_rfl).entered
  | .cyclic _ _ warned => by
    rw [(warn_shows warned).compiled]
    exact (Ascends.of_le List.prefix_rfl).entered
  | .unloaded _ _ _ => (Ascends.of_le List.prefix_rfl).entered
  | .unfilled _ _ _ filled => by
    refine Ascends.entered (?_ : Ascends before.compiled _ _)
    exact filled.ascends
  | .unwritten _ _ _ filled refused => by
    obtain ⟨_, _, _, rfl⟩ := writeOutput_refused refused
    refine Ascends.entered (?_ : Ascends before.compiled _ _)
    exact filled.ascends
  | .written _ _ _ filled wrote told => by
    obtain ⟨_, _, rfl⟩ := writeOutput_ok wrote
    rw [(info_shows told).compiled]
    refine Ascends.entered (?_ : Ascends before.compiled _ _)
    exact filled.ascends.trans .finished

theorem Fills.ascends : Fills settings depth file fragments before events result after →
    Ascends before.compiled events after.compiled
  | .nil => .of_le List.prefix_rfl
  | .text following => following.ascends
  | .failed imported => imported.ascends
  | .site imported following => imported.ascends.trans following.ascends

end

/-- Each text is in the output of its file, or the file of another output took its place. -/
def Held (settings : BuildSettings) (done : List (String × String)) (state : BuildState) : Prop :=
  ∀ path code, (path, code) ∈ done → path ∈ state.compiled ∧
    ∃ content, state.workspace.read (settings.outputPath path) = .ok content ∧
      (content = code.toUTF8 ∨ ∃ other ∈ state.compiled, other ≠ path ∧
        state.workspace.location (settings.outputPath other) =
          state.workspace.location (settings.outputPath path))

namespace Held

variable {before after : BuildState} {reached : Workspace}

theorem of_grows (held : Held settings done before)
    (grows : before.workspace.Grows (fun _ => False) after.workspace)
    (compiled : after.compiled = before.compiled) : Held settings done after := by
  intro path code member
  obtain ⟨known, content, found, text⟩ := held path code member
  rw [compiled]
  refine ⟨known, content, grows.read found not_false, ?_⟩
  simpa only [grows.location] using text

/-- A file that was not compiled yet gets its output. -/
theorem stored (held : Held settings done before) (unknown : path ∉ before.compiled)
    (stores : before.workspace.Stores (settings.outputPath path) code reached) :
    Held settings (done ++ [(path, code)])
      (BuildState.record { before with workspace := reached } path) := by
  intro path' code' member
  have grows := stores.grows
  rcases List.mem_append.mp member with member | member
  · obtain ⟨known, content, found, text⟩ := held path' code' member
    refine ⟨List.mem_append_left _ known, ?_⟩
    have apart : path ≠ path' := by
      rintro rfl
      exact unknown known
    by_cases same : before.workspace.location (settings.outputPath path') =
        before.workspace.location (settings.outputPath path)
    · obtain ⟨content', found'⟩ := grows.readable found
      refine ⟨content', found', .inr ⟨path, List.mem_append_right _ List.mem_cons_self, apart, ?_⟩⟩
      exact (grows.location _).trans (same.symm.trans (grows.location _).symm)
    · refine ⟨content, grows.read found same, ?_⟩
      rcases text with text | ⟨other, known', apart', same'⟩
      · exact .inl text
      · refine .inr ⟨other, List.mem_append_left _ known', apart', ?_⟩
        exact (grows.location _).trans (same'.trans (grows.location _).symm)
  · cases List.mem_singleton.mp member
    exact ⟨List.mem_append_right _ List.mem_cons_self, _, stores.read, .inl rfl⟩

end Held

theorem Shows.grows (shown : Shows before after) :
    before.workspace.Grows (fun _ => False) after.workspace :=
  .of_files shown.files shown.directory

mutual

theorem Compiles.held : Compiles settings depth path before events result after →
    Orderly before → Held settings done before → Held settings (done ++ finished events) after
  | .exhausted, _, held => by simpa [finished] using held
  | .cached _ read, _, held => by
    have shown := readOutput_shows read
    simpa [finished] using held.of_grows shown.grows shown.compiled
  | .cyclic _ _ warned, _, held => by
    have shown := warn_shows warned
    simpa [finished] using held.of_grows shown.grows shown.compiled
  | .unloaded _ _ _, _, held => by simpa [finished] using held
  | .unfilled unknown unstarted _ filled, orderly, held =>
    filled.held (orderly.enter unknown unstarted) held
  | .unwritten unknown unstarted _ filled refused, orderly, held => by
    have reached := filled.held (orderly.enter unknown unstarted) held
    obtain ⟨_, _, grows, rfl⟩ := writeOutput_refused refused
    exact reached.of_grows grows rfl
  | .written unknown unstarted _ filled wrote told, orderly, held => by
    have reached := filled.held (orderly.enter unknown unstarted) held
    have open' := (filled.orderly (orderly.enter unknown unstarted)).1
    obtain ⟨_, stores, rfl⟩ := writeOutput_ok wrote
    have unknown' : path ∉ _ := open'.apart path (filled.effect.inProgress ▸ List.mem_cons_self)
    have shown := info_shows told
    have stored := (reached.stored unknown' stores).of_grows shown.grows shown.compiled
    rw [finished, finished_append, ← List.append_assoc]
    exact stored

theorem Fills.held : Fills settings depth file fragments before events result after →
    Orderly before → Held settings done before → Held settings (done ++ finished events) after
  | .nil, _, held => by simpa [finished] using held
  | .text following, orderly, held => following.held orderly held
  | .failed imported, orderly, held => imported.held orderly held
  | .site imported following, orderly, held => by
    have middle := imported.held orderly held
    rw [finished_append, ← List.append_assoc]
    exact following.held (imported.orderly orderly).1 middle

end

/-- A failure after which a build goes on: an error about the scripts, or a missing file. -/
def Recorded (failure : Failure) : Prop :=
  (∃ error, failure = .reported error) ∨ failure.isMissingFile = true

/-- The report with what came of one more file. -/
def Report.note (settings : BuildSettings) (report : Report) (path : String) :
    Except Failure String → Report
  | .ok _ => { report with outputs := Table.put path (settings.outputPath path) report.outputs }
  | .error failure => { report with failed := Table.put path failure.message report.failed }

/-- The file of an entry is compiled. What comes of it is noted, unless it fails with what ends the
build. -/
theorem buildEntry_cases (run : Yields (buildEntry settings report entry) before result after) :
    ∃ compiled middle,
      Yields (Build.compile settings (before.workspace.absolute entry)) before compiled middle ∧
      (((∀ failure, compiled = .error failure → Recorded failure) ∧ Shows middle after ∧
          result = .ok (report.note settings (before.workspace.absolute entry) compiled)) ∨
        ∃ failure, compiled = .error failure ∧ ¬ Recorded failure ∧ after = middle ∧
          result = .error failure) := by
  have run := run.rest .get
  rcases yields_tryCatch.mp run with ⟨_, run, same⟩ | ⟨failure, middle, first, handled⟩
  · rcases yields_bind.mp run with ⟨text, middle, first, run⟩ | ⟨_, _, impossible⟩
    · obtain ⟨noted, rfl⟩ := yields_pure.mp run
      exact ⟨.ok text, after, first,
        .inl ⟨fun _ impossible => (nomatch impossible), .refl after, same.trans noted⟩⟩
    · cases impossible
  · rcases yields_bind.mp first with ⟨_, _, _, impossible⟩ | ⟨_, first, same⟩
    · cases (yields_pure.mp impossible).1
    obtain rfl := Except.error.inj same
    refine ⟨.error failure, middle, first, ?_⟩
    have recorded {report' : Report} (run : Yields (do
        reportFailure s!"Error compiling {before.workspace.absolute entry}: {failure.message}"
        return report') middle result after) : Shows middle after ∧ result = .ok report' := by
      rcases yields_bind.mp run with ⟨_, _, told, run⟩ | ⟨_, impossible, _⟩
      · obtain ⟨rfl, rfl⟩ := yields_pure.mp run
        obtain ⟨_, rfl⟩ := yields_modify.mp told
        exact ⟨⟨rfl, rfl, rfl, rfl⟩, rfl⟩
      · cases (yields_modify.mp impossible).1
    split at handled
    · refine .inl ⟨?_, recorded handled⟩
      rintro _ ⟨⟩
      exact .inl ⟨_, rfl⟩
    · rename_i unreported
      split at handled
      · rename_i missing
        refine .inl ⟨?_, recorded handled⟩
        rintro _ ⟨⟩
        exact .inr missing
      · rename_i present
        obtain ⟨rfl, rfl⟩ := yields_throw.mp handled
        refine .inr ⟨failure, rfl, ?_, rfl, rfl⟩
        rintro (⟨error, rfl⟩ | missing)
        · exact unreported error rfl
        · exact present missing

/-- The calls on one build so far: what happened in them, what others did to the workspace in
between, and the state all this led to. -/
inductive Session (settings : BuildSettings) : List Event → List (BuildState × Workspace) →
    BuildState → Prop where
  | start (workspace : Workspace) : Session settings [] [] (.fresh workspace)
  | compile (earlier : Session settings events disturbances before)
      (called : Compiles settings (depthLimit before.workspace.files)
        (before.workspace.absolute path) before events' result after) :
      Session settings (events ++ events') disturbances after
  | shown (earlier : Session settings events disturbances before) (shown : Shows before after) :
      Session settings events disturbances after
  | disturbed {before : BuildState} (earlier : Session settings events disturbances before)
      (workspace : Workspace) :
      Session settings events ((before, workspace) :: disturbances)
        { before with workspace := workspace }

/-- Nobody else changed an output that was there, or where its path leads. -/
def Undisturbed (settings : BuildSettings) (disturbances : List (BuildState × Workspace)) : Prop :=
  ∀ state workspace, (state, workspace) ∈ disturbances → ∀ path ∈ state.compiled,
    workspace.read (settings.outputPath path) = state.workspace.read (settings.outputPath path) ∧
      workspace.location (settings.outputPath path) =
        state.workspace.location (settings.outputPath path)

namespace Session

theorem idle (session : Session settings events disturbances state) : state.inProgress = [] := by
  induction session with
  | start => rfl
  | compile earlier called ih =>
    exact called.effect.inProgress.trans ih
  | shown earlier shown ih => exact shown.inProgress.trans ih
  | disturbed earlier workspace ih => exact ih

theorem compiled_eq (session : Session settings events disturbances state) :
    state.compiled = (finished events).map Prod.fst := by
  induction session with
  | start => rfl
  | compile earlier called ih =>
    rw [called.effect.compiled, ih, finished_append, List.map_append]
  | shown earlier shown ih => exact shown.compiled.trans ih
  | disturbed earlier workspace ih => exact ih

theorem orderly (session : Session settings events disturbances state) :
    Orderly state ∧ OrderlyEntries events := by
  induction session with
  | start workspace => exact ⟨.fresh workspace, nofun⟩
  | compile earlier called ih =>
    obtain ⟨orderly, entries⟩ := ih
    obtain ⟨reached, entries'⟩ := called.orderly orderly
    exact ⟨reached, entries.append entries'⟩
  | shown earlier shown ih =>
    obtain ⟨orderly, entries⟩ := ih
    exact ⟨orderly.congr shown.compiled shown.inProgress, entries⟩
  | disturbed earlier workspace ih =>
    obtain ⟨orderly, entries⟩ := ih
    exact ⟨orderly.congr rfl rfl, entries⟩

theorem ascends (session : Session settings events disturbances state) :
    Ascends [] events state.compiled := by
  induction session with
  | start => exact .of_le List.prefix_rfl
  | compile earlier called ih => exact ih.trans called.ascends
  | shown earlier shown ih => exact shown.compiled ▸ ih
  | disturbed earlier workspace ih => exact ih

theorem held (session : Session settings events disturbances state)
    (undisturbed : Undisturbed settings disturbances) :
    Held settings (finished events) state := by
  induction session with
  | start => exact nofun
  | compile earlier called ih =>
    rw [finished_append]
    exact called.held earlier.orderly.1 (ih undisturbed)
  | shown earlier shown ih =>
    exact (ih undisturbed).of_grows shown.grows shown.compiled
  | disturbed earlier workspace ih =>
    have held := ih fun state workspace member =>
      undisturbed state workspace (List.mem_cons_of_mem _ member)
    have untouched := undisturbed _ workspace List.mem_cons_self
    intro path code member
    obtain ⟨known, content, found, text⟩ := held path code member
    obtain ⟨sameContent, sameLocation⟩ := untouched path known
    refine ⟨known, content, sameContent.trans found, text.imp_right ?_⟩
    rintro ⟨other, known', apart, same⟩
    exact ⟨other, known', apart,
      (untouched other known').2.trans (same.trans sameLocation.symm)⟩

theorem call_compile (session : Session settings events disturbances before)
    (run : Yields (Build.compile settings path) before result after) :
    ∃ events', Session settings (events ++ events') disturbances after := by
  have run := run.rest .get
  obtain ⟨events', called⟩ := compileWithin_traced run
  exact ⟨events', .compile session called⟩

theorem call_buildEntry (session : Session settings events disturbances before)
    (run : Yields (buildEntry settings report entry) before result after) :
    ∃ events', Session settings (events ++ events') disturbances after := by
  obtain ⟨compiled, middle, called, ended⟩ := buildEntry_cases run
  obtain ⟨events', session⟩ := session.call_compile called
  rcases ended with ⟨_, shown, _⟩ | ⟨_, _, _, rfl, _⟩
  · exact ⟨events', .shown session shown⟩
  · exact ⟨events', session⟩

theorem call_build (session : Session settings events disturbances before)
    (run : Yields (Build.build settings report entries) before result after) :
    ∃ events', Session settings (events ++ events') disturbances after := by
  induction entries generalizing report events before with
  | nil =>
    obtain ⟨_, rfl⟩ := yields_pure.mp run
    exact ⟨[], by simpa using session⟩
  | cons entry entries ih =>
    rcases yields_bind.mp run with ⟨next, middle, first, run⟩ | ⟨_, first, _⟩
    · obtain ⟨events', session⟩ := session.call_buildEntry first
      obtain ⟨events'', session⟩ := ih session run
      exact ⟨events' ++ events'', by simpa using session⟩
    · exact session.call_buildEntry first

/-- Two files of which one would overwrite the output of the other are not both compiled. -/
def Unshared (settings : BuildSettings) (state : BuildState) : Prop :=
  ∀ path ∈ state.compiled, ∀ other ∈ state.compiled,
    state.workspace.location (settings.outputPath path) =
      state.workspace.location (settings.outputPath other) → path = other

/-- Every call goes on with the session. Whenever a compilation is entered, no file is in progress
twice or compiled already, and afterwards the same files are in progress as before. The compiled
files only become more: they are the ones that finished, each of them once. As long as no two of them
share an output and nobody else touches one, each output holds the text its file finished with. -/
theorem invariant (session : Session settings events disturbances state) :
    ((∀ path, ∃ events', Session settings (events ++ events') disturbances
        ((Build.compile settings path).run.run state).2) ∧
      ∀ report entries, ∃ events', Session settings (events ++ events') disturbances
        ((Build.build settings report entries).run.run state).2) ∧
    (∀ path entered, .entered path entered ∈ events → entered.inProgress.Nodup ∧
      ∀ other ∈ entered.inProgress, other ∉ entered.compiled) ∧
    (∀ depth path before,
      ((compileWithin settings depth path).run.run before).2.inProgress = before.inProgress) ∧
    (compiledLists events ++ [state.compiled]).Pairwise (· <+: ·) ∧
    (state.compiled = (finished events).map Prod.fst ∧ state.compiled.Nodup) ∧
    (Undisturbed settings disturbances → Unshared settings state →
      ∀ path code, (path, code) ∈ finished events →
        state.workspace.read (settings.outputPath path) = .ok code.toUTF8) := by
  refine ⟨⟨?_, ?_⟩, ?_, ?_, ?_, ⟨session.compiled_eq, session.orderly.1.once⟩, ?_⟩
  · intro path
    exact session.call_compile (yields_run _ _)
  · intro report entries
    exact session.call_build (yields_run _ _)
  · intro path entered member
    have orderly := session.orderly.2 path entered member
    exact ⟨orderly.progressing, orderly.apart⟩
  · intro depth path before
    obtain ⟨events', called⟩ :=
      compileWithin_traced (yields_run (compileWithin settings depth path) before)
    exact called.effect.inProgress
  · exact (List.pairwise_cons.mp session.ascends).2
  · intro undisturbed unshared path code member
    obtain ⟨known, content, found, text | ⟨other, known', apart, same⟩⟩ :=
      session.held undisturbed path code member
    · rw [found, text]
    · exact absurd (unshared other known' path known same) apart

/-- Outputs go to a directory beside the sources. -/
def singleSettings : BuildSettings := ⟨"/", "/out", ".as", ".js", true⟩

end Session

theorem compiles_started {before : BuildState} (unknown : path ∉ before.compiled)
    (started : path ∈ before.inProgress) : ∃ after, Shows before after ∧
      Compiles settings (depth + 1) path before [.entered path before]
        (.ok (cycleMark settings path)) after :=
  ⟨_, warn_shows .modify, .cyclic unknown started .modify⟩

/-- What the second file of a broken project comes to: the mark for the first one. -/
def brokenText : String := "/* cyclic import skipped: a.as */"

def brokenProgram : Program :=
  ⟨⟨⟨1, 1⟩, ⟨1, 37⟩⟩, [.importFile ⟨⟨1, 1⟩, ⟨1, 15⟩⟩ "b.as",
    .importFile ⟨⟨1, 17⟩, ⟨1, 37⟩⟩ "missing.as"]⟩

/-- Two files that import each other, with room for their outputs. The first one also imports a file
that is missing. -/
structure Breaks (workspace : Workspace) : Prop where
  directory : workspace.directory = "/"
  deep : 0 < workspace.files.entries.length
  free : Free "out" workspace.files
  first : workspace.files.get? ["a.as"] =
    some (.file "import(\"b.as\"); import(\"missing.as\");".toUTF8)
  second : workspace.files.get? ["b.as"] = some (.file "import(\"a.as\");".toUTF8)
  missing : workspace.files.get? ["missing.as"] = none

/-- The same with a third file, which imports the second one. -/
def thirdProject : Workspace :=
  flatProject [("a.as", "import(\"b.as\"); import(\"missing.as\");"), ("b.as", "import(\"a.as\");"),
    ("c.as", "import(\"b.as\");")]

private theorem third_breaks : Breaks thirdProject :=
  ⟨rfl, by decide, flat_free (by decide), rfl, rfl, rfl⟩

namespace Breaks

variable {workspace : Workspace}

theorem loads (breaks : Breaks workspace) :
    SourceFile.load workspace "/a.as" = .ok brokenProgram ∧
    SourceFile.load workspace "/b.as" = .ok (circleProgram "a.as" 15) ∧
    SourceFile.load workspace "/missing.as" = .error (.missingSource "/missing.as") := by
  have shallow : FileTree.Shallow "/a.as" "a.as" ∧ FileTree.Shallow "/b.as" "b.as" ∧
      FileTree.Shallow "/missing.as" "missing.as" := by decide
  obtain ⟨first, second, third⟩ := shallow
  refine ⟨?_, ?_, ?_⟩
  · have text := SourceFile.read_shallow first breaks.first (by decide)
    exact load_twin "b.as" "missing.as" text (by decide +kernel)
  · exact load_circle (SourceFile.read_shallow second breaks.second (by decide)) (by decide +kernel)
  · have absent : SourceFile.load thirdProject "/missing.as" =
        .error (.missingSource "/missing.as") := rfl
    exact (SourceFile.load_shallow third breaks.missing).trans absent

/-- The second file finishes while the first one is in progress. -/
theorem compiles_second (breaks : Breaks workspace) (depth : Nat) : ∃ events after,
    Compiles Session.singleSettings (depth + 2) "/b.as" ((BuildState.fresh workspace).enter "/a.as")
      events (.ok brokenText) after ∧ finished events = [("/b.as", brokenText)] ∧
      Free "out" after.workspace.files ∧ ∀ other, other ≠ "out" →
        after.workspace.files.get? [other] = workspace.files.get? [other] := by
  have slot : Slot "out" "b.js" (Session.singleSettings.outputPath "/b.as") := by decide
  have quiet : Session.singleSettings.quiet = true := rfl
  have started : "/a.as" ∈ ["/b.as", "/a.as"] := by decide
  have unstarted : "/b.as" ∉ ["/a.as"] := by decide
  obtain ⟨warned, shown, cyclic⟩ := @compiles_started (importTarget "/b.as" "a.as")
    Session.singleSettings depth (((BuildState.fresh workspace).enter "/a.as").enter "/b.as")
    List.not_mem_nil started
  have filled : Fills Session.singleSettings (depth + 1) "/b.as" (circleProgram "a.as" 15).emit
      (((BuildState.fresh workspace).enter "/a.as").enter "/b.as") _ (.ok brokenText) warned :=
    .site cyclic .nil
  have free : Free "out" warned.workspace.files := shown.files ▸ breaks.free
  obtain ⟨reached, stores, free, same⟩ := free.stores slot brokenText
  refine ⟨_, _, .written List.not_mem_nil unstarted breaks.loads.2.1 filled
    (writeOutput_stores stores) (yields_info.mpr ⟨rfl, rfl⟩), rfl, ?_⟩
  rw [if_pos quiet]
  exact ⟨free, fun other apart => (same other apart).trans
    (congrArg (FileTree.get? · [other]) shown.files)⟩

/-- After that the first one enters the missing file, and fails. -/
theorem compiles_first (breaks : Breaks workspace) : ∃ events failure entered after,
    Compiles Session.singleSettings (depthLimit workspace.files) "/a.as" (.fresh workspace) events
      (.error (importFailure "/a.as" ⟨⟨1, 17⟩, ⟨1, 37⟩⟩ "missing.as" failure)) after ∧
      failure.isMissingFile = true ∧ finished events = [("/b.as", brokenText)] ∧
      (.entered "/missing.as" entered ∈ events ∧ entered.inProgress = ["/a.as"] ∧
        entered.compiled = ["/b.as"]) ∧
      Free "out" after.workspace.files ∧ ∀ other, other ≠ "out" →
        after.workspace.files.get? [other] = workspace.files.get? [other] := by
  obtain ⟨depth, deep⟩ : ∃ depth, depthLimit workspace.files = depth + 3 := by
    have deep := breaks.deep
    exact ⟨2 * workspace.files.entries.length - 1, by unfold depthLimit; omega⟩
  obtain ⟨events, middle, second, done, free, same⟩ := breaks.compiles_second depth
  have shallow : FileTree.Shallow "/missing.as" "missing.as" := by decide
  have missing := (SourceFile.load_shallow shallow (same "missing.as" (by decide))).trans
    breaks.loads.2.2
  have inProgress : middle.inProgress = ["/a.as"] := second.effect.inProgress
  have compiled : middle.compiled = ["/b.as"] := second.effect.compiled.trans (by rw [done]; rfl)
  have unknown : "/missing.as" ∉ middle.compiled ∧ "/missing.as" ∉ middle.inProgress := by
    rw [compiled, inProgress]
    decide
  have last : Compiles Session.singleSettings (depth + 2) (importTarget "/a.as" "missing.as") middle
      _ _ _ := .unloaded unknown.1 unknown.2 missing
  have filled : Fills Session.singleSettings (depth + 2) "/a.as" brokenProgram.emit
      ((BuildState.fresh workspace).enter "/a.as") _ _ _ := .site second (.text (.failed last))
  rw [deep]
  refine ⟨_, _, middle, _, .unfilled List.not_mem_nil List.not_mem_nil breaks.loads.1 filled, rfl,
    ?_, ⟨?_, inProgress, compiled⟩, free, same⟩
  · simp [finished, finished_append, done]
  · exact .tail _ (List.mem_append_right events List.mem_cons_self)

end Breaks

private theorem yields_readOutput {before : BuildState} (plain : Text.Plain text)
    (found : before.workspace.read (settings.outputPath path) = .ok text.toUTF8) :
    Yields (readOutput settings path) before (.ok text) before := by
  refine Yields.get.bind ?_
  rw [found]
  dsimp only
  rw [Text.ofFile_toUTF8 plain]
  exact .pure

/-- The third file takes the text of the second one from its output. -/
theorem compiles_third {before : BuildState} (known : before.compiled = ["/b.as"])
    (idle : before.inProgress = []) (free : Free "out" before.workspace.files)
    (same : before.workspace.files.get? ["c.as"] = thirdProject.files.get? ["c.as"])
    (held : before.workspace.read (Session.singleSettings.outputPath "/b.as") =
      .ok brokenText.toUTF8) :
    ∃ events after, Compiles Session.singleSettings (depthLimit before.workspace.files) "/c.as" before
      events (.ok brokenText) after ∧ finished events = [("/c.as", brokenText)] := by
  have shallow : FileTree.Shallow "/c.as" "c.as" := by decide
  have slot : Slot "out" "c.js" (Session.singleSettings.outputPath "/c.as") := by decide
  have load : SourceFile.load before.workspace "/c.as" = .ok (circleProgram "b.as" 15) :=
    (SourceFile.load_shallow shallow same).trans
      (load_circle (SourceFile.read_shallow shallow rfl (by decide)) (by decide +kernel))
  have unknown : "/c.as" ∉ before.compiled ∧ "/c.as" ∉ before.inProgress := by
    rw [known, idle]
    decide
  have cached : importTarget "/c.as" "b.as" ∈ (before.enter "/c.as").compiled := by
    rw [BuildState.enter, known]
    decide
  have read : Yields (readOutput Session.singleSettings (importTarget "/c.as" "b.as"))
      (before.enter "/c.as") (.ok brokenText) (before.enter "/c.as") :=
    yields_readOutput (by decide) held
  have filled : Fills Session.singleSettings (2 * before.workspace.files.entries.length + 1) "/c.as"
      (circleProgram "b.as" 15).emit (before.enter "/c.as") _ (.ok brokenText) _ :=
    .site (.cached cached read) .nil
  obtain ⟨reached, stores, _⟩ := free.stores slot brokenText
  exact ⟨_, _, .written unknown.1 unknown.2 load filled (writeOutput_stores stores)
    (yields_info.mpr ⟨rfl, rfl⟩), rfl⟩

/-- The first call fails, after a nested one has finished. The next call finishes, with the text of
that one. -/
theorem Session.invariant_third :
    ∃ events failure first second,
      Yields (Build.compile singleSettings "a.as") (.fresh thirdProject) (.error failure) first ∧
      Yields (Build.compile singleSettings "c.as") first (.ok brokenText) second ∧
      Session singleSettings events [] second ∧
      (∃ entered, .entered "/missing.as" entered ∈ events ∧ entered.inProgress = ["/a.as"] ∧
        entered.compiled = ["/b.as"]) ∧
      finished events = [("/b.as", brokenText), ("/c.as", brokenText)] ∧
      (Undisturbed singleSettings [] ∧ Unshared singleSettings second) ∧
      ∀ path ∈ ["/b.as", "/c.as"],
        second.workspace.read (singleSettings.outputPath path) = .ok brokenText.toUTF8 := by
  obtain ⟨events, failure, entered, first, called, _, done, entry, free, same⟩ :=
    third_breaks.compiles_first
  have start : thirdProject.absolute "a.as" = "/a.as" := by decide
  rw [← start] at called
  have session := Session.compile (.start thirdProject) called
  have compiled : first.compiled = ["/b.as"] := session.compiled_eq.trans (by simp [done])
  have alone : Unshared singleSettings first := by simp [Unshared, compiled]
  have held := (invariant session).2.2.2.2.2 nofun alone "/b.as" brokenText (by simp [done])
  obtain ⟨events', second, called', done'⟩ :=
    compiles_third compiled session.idle free (same "c.as" (by decide)) held
  have absolute : first.workspace.absolute "c.as" = "/c.as" := by
    rw [Workspace.absolute, called.effect.workspace.directory]
    decide
  rw [← absolute] at called'
  have session' := session.compile called'
  have all : finished (([] ++ events) ++ events') =
      [("/b.as", brokenText), ("/c.as", brokenText)] := by
    simp [finished_append, done, done']
  have unshared : Unshared singleSettings second := by
    have slots : Slot "out" "b.js" (singleSettings.outputPath "/b.as") ∧
        Slot "out" "c.js" (singleSettings.outputPath "/c.as") := by decide
    rw [Unshared, session'.compiled_eq, all]
    simp [slots.1.location, slots.2.location]
  refine ⟨_, _, first, second, Yields.get.bind called.yields, Yields.get.bind called'.yields,
    session', ⟨entered, by simp [entry.1], entry.2⟩, all, ⟨nofun, unshared⟩, ?_⟩
  intro path member
  refine (invariant session').2.2.2.2.2 nofun unshared path brokenText ?_
  rw [all]
  simpa using member

end ScriptKit.Build
