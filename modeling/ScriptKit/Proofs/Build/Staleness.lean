import ScriptKit.Proofs.Build.Ordering
import ScriptKit.Proofs.Build.Verdict

/-!
Outputs of earlier builds. A build reads outputs back, but only the ones that it has written itself. So
builds that start with the same files, apart from the outputs that they write, go the same way and end
with the same files, and a build that is done again changes nothing.
-/
namespace ScriptKit

/-- While files grow, a source that is not written is what it comes to be, if it is not missing at the
start or stays missing. -/
theorem SourceFile.load_settled {start now finish : Workspace} (first : start.Grows changing now)
    (second : now.Grows changing' finish) (normal : Path.Normal path slashes list)
    (still : ¬ changing' (now.location path))
    (missing : load start path = .error (.missingSource path) →
      load finish path = .error (.missingSource path)) :
    load now path = load finish path := by
  have read (workspace : Workspace) : workspace.read path = workspace.files.read path := by
    rw [Workspace.read, workspace.rooted_normal normal]
  by_cases absent : now.read path = .error (.failed .notFound path)
  · have earlier : start.read path = .error (.failed .notFound path) := by
      apply Decidable.byContradiction
      intro present
      rw [read] at present absent
      exact first.files.read_present normal present absent
    rw [missing ((load_missing normal).mpr earlier)]
    exact (load_missing normal).mpr absent
  · apply load_congr
    rw [Workspace.location, now.rooted_normal normal] at still
    rw [read] at absent ⊢
    rw [read]
    exact (second.files.read_normal normal still absent).symm

namespace Build

theorem readOutput_held {before before' : BuildState}
    (found : before.workspace.read (settings.outputPath path) = .ok content)
    (found' : before'.workspace.read (settings.outputPath path) = .ok content)
    (run : Yields (readOutput settings path) before result after) :
    after = before ∧ Yields (readOutput settings path) before' result before' := by
  have run := run.rest .get
  rw [found] at run
  dsimp only at run
  rcases text : Text.ofFile content with fault | text'
  · rw [text] at run
    obtain ⟨rfl, rfl⟩ := yields_throw.mp run
    refine ⟨rfl, Yields.get.bind ?_⟩
    rw [found']
    dsimp only
    rw [text]
    exact .throw
  · rw [text] at run
    obtain ⟨rfl, rfl⟩ := yields_pure.mp run
    refine ⟨rfl, Yields.get.bind ?_⟩
    rw [found']
    dsimp only
    rw [text]
    exact .pure

private theorem writeOutput_refuses (homeless : Path.directory output = "") (state : BuildState) :
    Yields (writeOutput output code) state (.error (.file .notFound "")) state := by
  have run := yields_run (writeOutput output code) state
  obtain ⟨same, unchanged⟩ := writeOutput_homeless homeless run
  rw [same, unchanged] at run
  exact run

/-- Two builds that are in step, each over files of its own. What one of them has written, the other
one has written with the same text. -/
structure Twins (settings : BuildSettings) (one two : Workspace) (state state' : BuildState) :
    Prop where
  overlays : Overlays settings one state.compiled state.workspace
  overlays' : Overlays settings two state.compiled state'.workspace
  compiled : state'.compiled = state.compiled
  inProgress : state'.inProgress = state.inProgress
  held : ∀ path ∈ state.compiled, ∃ content,
    state.workspace.read (settings.outputPath path) = .ok content ∧
      state'.workspace.read (settings.outputPath path) = .ok content

namespace Twins

variable {settings : BuildSettings} {one two : Workspace} {before before' after after' : BuildState}

theorem fresh : Twins settings one two (.fresh one) (.fresh two) :=
  ⟨.nil one, .nil two, rfl, rfl, nofun⟩

theorem enter (twins : Twins settings one two before before') :
    Twins settings one two (before.enter path) (before'.enter path) :=
  ⟨twins.overlays, twins.overlays', twins.compiled, congrArg (path :: ·) twins.inProgress, twins.held⟩

theorem leave (twins : Twins settings one two before before') :
    Twins settings one two before.leave before'.leave :=
  ⟨twins.overlays, twins.overlays', twins.compiled, congrArg (List.drop 1) twins.inProgress, twins.held⟩

theorem shown (twins : Twins settings one two before before') (shown : Shows before after)
    (shown' : Shows before' after') : Twins settings one two after after' := by
  obtain ⟨overlays, overlays', compiled, inProgress, held⟩ := twins
  rw [← shown.compiled] at overlays overlays' held compiled
  refine ⟨overlays.shown shown.files shown.directory, overlays'.shown shown'.files shown'.directory,
    shown'.compiled.trans compiled, ?_, fun path member => ?_⟩
  · rw [shown.inProgress, shown'.inProgress, inProgress]
  · obtain ⟨content, found, found'⟩ := held path member
    exact ⟨content, shown.grows.read found not_false, shown'.grows.read found' not_false⟩

/-- Both write the same output. It may take the place of an earlier one. -/
theorem stored (twins : Twins settings one two before before')
    (rooted : Path.isAbsolute one.directory = true) (directory : two.directory = one.directory)
    (stores : before.workspace.Stores (settings.outputPath path) code reached)
    (stores' : before'.workspace.Stores (settings.outputPath path) code reached') :
    Twins settings one two (BuildState.record { before with workspace := reached } path)
      (BuildState.record { before' with workspace := reached' } path) := by
  obtain ⟨overlays, overlays', compiled, inProgress, held⟩ := twins
  refine ⟨overlays.snoc rooted stores, overlays'.snoc (directory.symm ▸ rooted) stores',
    congrArg (· ++ [path]) compiled, inProgress, fun other member => ?_⟩
  have places (other : String) : before'.workspace.location other = before.workspace.location other := by
    rw [overlays.grows.location, overlays'.grows.location, Workspace.location, Workspace.location,
      Workspace.rooted, Workspace.rooted, directory]
  rcases List.mem_append.mp member with earlier | last
  · obtain ⟨content, found, found'⟩ := held other earlier
    by_cases same : before.workspace.location (settings.outputPath other) =
        before.workspace.location (settings.outputPath path)
    · obtain ⟨_, found⟩ := stores.grows.readable found
      obtain ⟨_, found'⟩ := stores'.grows.readable found'
      have same' := same
      rw [← places, ← places, ← stores'.grows.location, ← stores'.grows.location] at same'
      rw [← stores.grows.location, ← stores.grows.location] at same
      rw [Workspace.read_unique found stores.read same] at found
      rw [Workspace.read_unique found' stores'.read same'] at found'
      exact ⟨_, found, found'⟩
    · refine ⟨content, stores.grows.read found same, stores'.grows.read found' ?_⟩
      rw [places, places]
      exact same
  · rw [List.mem_singleton.mp last]
    exact ⟨_, stores.read, stores'.read⟩

end Twins

/-- What keeps two builds in step while they compile no files but some: what the one can load the other
one can, and what the one has written the other one can write. -/
structure Aligned (settings : BuildSettings) (one two : Workspace) (roots bound : List String) :
    Prop where
  rooted : Path.isAbsolute one.directory = true
  directory : two.directory = one.directory
  source : ∀ path paths now program, Reachable one roots path → (∀ path ∈ paths, path ∈ bound) →
    Overlays settings one paths now → SourceFile.load now path = .ok program →
      SourceFile.load one path = .ok program
  agree : ∀ path paths now now', Reachable one roots path → (∀ path ∈ paths, path ∈ bound) →
    Overlays settings one paths now → Overlays settings two paths now' →
      SourceFile.load now' path = SourceFile.load now path
  stores : ∀ path paths now' code, path ∈ bound → (∀ path ∈ paths, path ∈ bound) →
    Overlays settings two paths now' → ∃ after, now'.Stores (settings.outputPath path) code after

/-- The other build goes the same way, unless this one ends. -/
def InStep (settings : BuildSettings) (one two : Workspace) (result : Except Failure String)
    (after : BuildState) (way : BuildState → Prop) : Prop :=
  (∃ after', way after' ∧ Twins settings one two after after') ∨
    ∃ failure, result = .error failure ∧ ¬ Recorded failure

section
variable {settings : BuildSettings} {one two : Workspace} {roots bound : List String}

/-- A file that this build comes to is loaded by both. -/
theorem Aligned.loads (aligned : Aligned settings one two roots bound)
    (twins : Twins settings one two before before') (source : Reachable one roots path)
    (within : ∀ path ∈ before.compiled, path ∈ bound)
    (load : SourceFile.load before.workspace path = .ok program) :
    SourceFile.load before'.workspace path = .ok program ∧
      ∀ span name, .site span name ∈ program.emit → Reachable one roots (importTarget path name) := by
  constructor
  · rw [aligned.agree path _ _ _ source within twins.overlays twins.overlays']
    exact load
  · intro span name member
    have load := aligned.source path _ _ _ source within twins.overlays load
    exact source.imports ⟨program, span, name, load, member, rfl⟩

mutual

theorem Compiles.inStep (aligned : Aligned settings one two roots bound) {before' : BuildState} :
    Compiles settings depth path before events result after →
    Twins settings one two before before' → Reachable one roots path →
    (∀ path ∈ after.compiled, path ∈ bound) →
    InStep settings one two result after fun after' =>
      ∃ events', Compiles settings depth path before' events' result after'
  | .exhausted, twins, _, _ => .inl ⟨before', ⟨_, .exhausted⟩, twins⟩
  | .cached known read, twins, _, _ => by
    obtain ⟨content, found, found'⟩ := twins.held path known
    obtain ⟨rfl, read'⟩ := readOutput_held found found' read
    exact .inl ⟨before', ⟨_, .cached (twins.compiled.symm ▸ known) read'⟩, twins⟩
  | .cyclic unknown started warned, twins, _, _ => by
    obtain ⟨after', shown', called'⟩ :=
      compiles_started (twins.compiled.symm ▸ unknown) (twins.inProgress.symm ▸ started)
    exact .inl ⟨after', ⟨_, called'⟩, twins.shown (warn_shows warned) shown'⟩
  | .unloaded unknown unstarted load, twins, source, within => by
    rw [← aligned.agree path _ _ _ source within twins.overlays twins.overlays'] at load
    exact .inl ⟨before', ⟨_, .unloaded (twins.compiled.symm ▸ unknown)
      (twins.inProgress.symm ▸ unstarted) load⟩, twins⟩
  | .unfilled unknown unstarted load filled, twins, source, within => by
    obtain ⟨load', sources⟩ := aligned.loads twins source
      (fun other member => within other (filled.effect.mem_compiled other member)) load
    rcases filled.inStep aligned twins.enter sources within with
      ⟨after', ⟨events', filled'⟩, reached⟩ | ended
    · exact .inl ⟨after'.leave, ⟨_, .unfilled (twins.compiled.symm ▸ unknown)
        (twins.inProgress.symm ▸ unstarted) load' filled'⟩, reached.leave⟩
    · exact .inr ended
  | .unwritten unknown unstarted load filled refused, twins, source, within => by
    obtain ⟨_, _, _, rfl⟩ := writeOutput_refused refused
    obtain ⟨load', sources⟩ := aligned.loads twins source
      (fun other member => within other (filled.effect.mem_compiled other member)) load
    rcases filled.inStep aligned twins.enter sources within with
      ⟨middle', ⟨events', filled'⟩, reached⟩ | ⟨_, impossible, _⟩
    · by_cases homeless : Path.directory (settings.outputPath path) = ""
      · obtain ⟨same, unchanged⟩ := writeOutput_homeless homeless refused
        cases same
        rw [unchanged]
        exact .inl ⟨middle'.leave, ⟨_, .unwritten (twins.compiled.symm ▸ unknown)
          (twins.inProgress.symm ▸ unstarted) load' filled' (writeOutput_refuses homeless middle')⟩,
          reached.leave⟩
      · have rooted := reached.overlays.grows.directory.symm ▸ aligned.rooted
        exact .inr ⟨_, rfl, fun recorded => homeless (writeOutput_recorded rooted refused recorded)⟩
    · cases impossible
  | .written unknown unstarted load filled wrote told, twins, source, within => by
    have shown := info_shows told
    rw [shown.compiled] at within
    obtain ⟨_, stores, rfl⟩ := writeOutput_ok wrote
    obtain ⟨within, last⟩ := List.forall_mem_append.mp within
    obtain ⟨load', sources⟩ := aligned.loads twins source
      (fun other member => within other (filled.effect.mem_compiled other member)) load
    rcases filled.inStep aligned twins.enter sources within with
      ⟨middle', ⟨events', filled'⟩, reached⟩ | ⟨_, impossible, _⟩
    · obtain ⟨workspace', stores'⟩ := aligned.stores path _ _ _ (last path List.mem_cons_self) within
        reached.overlays'
      have told' := yields_run
        (info settings s!"Compiled: {path} -> {settings.outputPath path}")
        (BuildState.record { middle' with workspace := workspace' } path).leave
      rw [(yields_info.mp told').1] at told'
      exact .inl ⟨_, ⟨_, .written (twins.compiled.symm ▸ unknown)
        (twins.inProgress.symm ▸ unstarted) load' filled' (writeOutput_stores stores') told'⟩,
        (reached.stored aligned.rooted aligned.directory stores stores').leave.shown shown
          (info_shows told')⟩
    · cases impossible

theorem Fills.inStep (aligned : Aligned settings one two roots bound) {before' : BuildState} :
    Fills settings depth file fragments before events result after →
    Twins settings one two before before' →
    (∀ span path, .site span path ∈ fragments → Reachable one roots (importTarget file path)) →
    (∀ path ∈ after.compiled, path ∈ bound) →
    InStep settings one two result after fun after' =>
      ∃ events', Fills settings depth file fragments before' events' result after'
  | .nil, twins, _, _ => .inl ⟨before', ⟨_, .nil⟩, twins⟩
  | .text following, twins, sources, within => by
    rcases following.inStep aligned twins (fun span path member =>
        sources span path (List.mem_cons_of_mem _ member)) within with
      ⟨after', ⟨events', following'⟩, reached⟩ | ⟨failure, rfl, unrecorded⟩
    · exact .inl ⟨after', ⟨_, .text following'⟩, reached⟩
    · exact .inr ⟨failure, rfl, unrecorded⟩
  | .failed imported, twins, sources, within => by
    rcases imported.inStep aligned twins (sources _ _ List.mem_cons_self) within with
      ⟨after', ⟨events', imported'⟩, reached⟩ | ⟨_, same, unrecorded⟩
    · exact .inl ⟨after', ⟨_, .failed imported'⟩, reached⟩
    · cases same
      exact .inr ⟨_, congrArg Except.error (importFailure_unrecorded unrecorded), unrecorded⟩
  | .site imported following, twins, sources, within => by
    rcases imported.inStep aligned twins (sources _ _ List.mem_cons_self)
        (fun path member => within path (following.effect.mem_compiled path member)) with
      ⟨middle', ⟨events', imported'⟩, reached⟩ | ⟨_, impossible, _⟩
    · rcases following.inStep aligned reached (fun span path member =>
          sources span path (List.mem_cons_of_mem _ member)) within with
        ⟨after', ⟨events'', following'⟩, reached⟩ | ⟨failure, rfl, unrecorded⟩
      · exact .inl ⟨after', ⟨_, .site imported' following'⟩, reached⟩
      · exact .inr ⟨failure, rfl, unrecorded⟩
    · cases impossible

end

private theorem compile_inStep {before before' : BuildState}
    (aligned : Aligned settings one two roots bound)
    (session : Session settings events [] before) (session' : Session settings events' [] before')
    (twins : Twins settings one two before before')
    (source : Reachable one roots (one.absolute path))
    (run : Yields (compile settings path) before result after)
    (within : ∀ path ∈ after.compiled, path ∈ bound) :
    InStep settings one two result after fun after' =>
      Yields (compile settings path) before' result after' := by
  have run' := yields_run (compile settings path) before'
  have enough := session.compile_ne nofun run
  have enough' := session'.compile_ne nofun run'
  have absolute : before.workspace.absolute path = one.absolute path ∧
      before'.workspace.absolute path = one.absolute path := by
    unfold Workspace.absolute
    rw [twins.overlays.grows.directory, twins.overlays'.grows.directory, aligned.directory]
    exact ⟨rfl, rfl⟩
  obtain ⟨_, called⟩ := compileWithin_traced (run.rest .get)
  obtain ⟨_, called'⟩ := compileWithin_traced (run'.rest .get)
  rw [absolute.1] at called
  rw [absolute.2] at called'
  rcases called.inStep aligned twins source within with ⟨after', ⟨_, other⟩, reached⟩ | ended
  · -- The limits on nesting may differ, but neither of them is reached.
    have deep := other.deepen_le enough (Nat.le_max_left _ (depthLimit before'.workspace.files))
    have deep' := called'.deepen_le enough' (Nat.le_max_right (depthLimit before.workspace.files) _)
    obtain ⟨same, same'⟩ := deep'.yields.unique deep.yields
    rw [same, same'] at run'
    exact .inl ⟨after', run', reached⟩
  · exact .inr ended

private theorem build_extends
    (run : Yields (build settings report entries) before (.ok report') after) :
    ∀ path ∈ before.compiled, path ∈ after.compiled := by
  rcases build_attempts run with ⟨results, _, attempts, _⟩ | ⟨_, _, impossible⟩
  · exact fun _ member => attempts.extends.subset member
  · cases impossible

/-- A build that returns goes the same way over the other files. -/
theorem build_inStep {before before' : BuildState} (aligned : Aligned settings one two roots bound)
    (session : Session settings events [] before) (session' : Session settings events' [] before')
    (twins : Twins settings one two before before')
    (listed : ∀ entry ∈ entries, one.absolute entry ∈ roots)
    (run : Yields (build settings report entries) before (.ok report') after)
    (within : ∀ path ∈ after.compiled, path ∈ bound) :
    ∃ after', Yields (build settings report entries) before' (.ok report') after' ∧
      Twins settings one two after after' := by
  induction entries generalizing report before before' events events' with
  | nil =>
    obtain ⟨same, rfl⟩ := yields_pure.mp run
    exact ⟨before', yields_pure.mpr ⟨same, rfl⟩, twins⟩
  | cons entry rest ih =>
    obtain ⟨root, listed⟩ := List.forall_mem_cons.mp listed
    rcases yields_bind.mp run with ⟨next, middle, first, run⟩ | ⟨_, _, impossible⟩
    · obtain ⟨result, reached, called, ended⟩ := buildEntry_cases first
      rcases ended with ⟨recorded, shown, noted⟩ | ⟨_, _, _, _, impossible⟩
      · cases noted
        have absolute : before.workspace.absolute entry = one.absolute entry ∧
            before'.workspace.absolute entry = one.absolute entry := by
          unfold Workspace.absolute
          rw [twins.overlays.grows.directory, twins.overlays'.grows.directory, aligned.directory]
          exact ⟨rfl, rfl⟩
        obtain ⟨slashes, list, normal⟩ := Path.absolute_normal aligned.rooted entry
        have source : Reachable one roots (one.absolute (one.absolute entry)) := by
          rw [Workspace.absolute, Workspace.absolute, normal.absolute_eq]
          exact ⟨_, root, .refl⟩
        rw [absolute.1] at called first run
        have within' : ∀ path ∈ reached.compiled, path ∈ bound := by
          rw [← shown.compiled]
          exact fun path member => within path (build_extends run path member)
        rcases compile_inStep aligned session session' twins source called within' with
          ⟨reached', called', twins⟩ | ⟨failure, rfl, unrecorded⟩
        · rw [← absolute.2] at called'
          obtain ⟨middle', shown', first'⟩ := @buildEntry_notes _ _ _ _ report _ called' recorded
          obtain ⟨_, session⟩ := session.call_buildEntry first
          obtain ⟨_, session'⟩ := session'.call_buildEntry first'
          rw [absolute.2] at first'
          obtain ⟨after', run', twins⟩ :=
            ih session session' (twins.shown shown shown') listed run
          exact ⟨after', first'.bind run', twins⟩
        · exact absurd (recorded failure rfl) unrecorded
      · cases impossible
    · cases impossible

/-- In the end the files are the same, if they were so apart from what is written. -/
theorem Twins.get?_eq (twins : Twins settings one two after after')
    (differs : Differs settings one after.compiled two) (place : Location) :
    after'.workspace.files.get? place = after.workspace.files.get? place := by
  have overlays := twins.overlays
  have overlays' := twins.overlays'
  by_cases isOutput : AtOutput settings one after.compiled place
  · obtain ⟨path, known, rfl⟩ := isOutput
    obtain ⟨content, found, found'⟩ := twins.held path known
    have located := (FileTree.locate_eq_ok.mp (FileTree.read_eq_ok.mp found).2).2.2
    have located' := (FileTree.locate_eq_ok.mp (FileTree.read_eq_ok.mp found').2).2.2
    rw [overlays.grows.rooted] at located
    rw [overlays'.grows.rooted, Workspace.rooted, differs.directory] at located'
    exact located'.trans located.symm
  by_cases above : AboveOutput settings one after.compiled place
  · rw [overlays.directory place above,
      overlays'.directory place ((Differs.above_iff differs.directory).mpr above)]
  · rw [overlays.kept place isOutput above, ← differs.kept place isOutput above]
    exact overlays'.kept place (fun written => isOutput ((Differs.at_iff differs.directory).mp written))
      fun made => above ((Differs.above_iff differs.directory).mp made)

/-- No source that is reached stands at an output or below it. -/
def Unread (settings : BuildSettings) (start : Workspace) (roots paths : List String) : Prop :=
  ∀ path ∈ paths, ∀ source, Reachable start roots source →
    ¬ start.location (settings.outputPath path) <+: start.location source

theorem Unread.not_atOutput (unread : Unread settings one roots bound)
    (source : Reachable one roots path) (within : place <+: one.location path) :
    ¬ AtOutput settings one bound place := by
  rintro ⟨output, member, rfl⟩
  exact unread output member path source within

/-- With the same directories everywhere, the same sources are loaded. -/
theorem load_eq_of_same (unread : Unread settings one roots bound)
    (normal : Path.Normal path slashes list) (source : Reachable one roots path)
    (directory : two.directory = one.directory)
    (same : ∀ place, ¬ AtOutput settings one bound place →
      two.files.get? place = one.files.get? place)
    (subset : ∀ path ∈ paths, path ∈ bound) (overlays : Overlays settings one paths now)
    (overlays' : Overlays settings two paths now') :
    SourceFile.load now' path = SourceFile.load now path := by
  apply SourceFile.load_congr
  rw [Workspace.read, Workspace.read, now.rooted_normal normal, now'.rooted_normal normal]
  apply FileTree.read_congr
  intro parts within
  have above : FileTree.follow [] parts <+: one.location path := by
    rw [Workspace.location, one.rooted_normal normal]
    exact FileTree.follow_normal normal within
  have unwritten := unread.not_atOutput source above
  by_cases made : AboveOutput settings one paths (FileTree.follow [] parts)
  · rw [overlays.directory _ made, overlays'.directory _ ((Differs.above_iff directory).mpr made)]
  · have aside : ¬ AtOutput settings one paths (FileTree.follow [] parts) :=
      fun isOutput => unwritten (isOutput.widen subset)
    rw [overlays.kept _ aside made, ← same _ unwritten]
    exact overlays'.kept _ (fun written => aside ((Differs.at_iff directory).mp written))
      fun made' => made ((Differs.above_iff directory).mp made')

/-- If what is missing at the start of either build is missing at the end, the same sources are
loaded. -/
theorem load_eq_of_missing (unread : Unread settings one roots bound)
    (normal : Path.Normal path slashes list) (source : Reachable one roots path)
    (final : Overlays settings one bound finish) (differs : Differs settings one bound two)
    (missing : SourceFile.load one path = .error (.missingSource path) ∨
      SourceFile.load two path = .error (.missingSource path) →
        SourceFile.load finish path = .error (.missingSource path))
    (subset : ∀ path ∈ paths, path ∈ bound) (overlays : Overlays settings one paths now)
    (overlays' : Overlays settings two paths now') :
    SourceFile.load now' path = SourceFile.load now path := by
  have unwritten := unread.not_atOutput source List.prefix_rfl
  have later := differs.overlaid final overlays' subset
  have place : now'.location path = one.location path := by
    rw [Workspace.location, Workspace.location, Workspace.rooted, Workspace.rooted, later.directory]
  rw [SourceFile.load_settled overlays.grows (overlays.grows_of_subset final subset) normal
      (overlays.grows.location path ▸ unwritten) fun absent => missing (.inl absent),
    SourceFile.load_settled overlays'.grows (later.grows final) normal (place ▸ unwritten)
      fun absent => missing (.inr absent)]

theorem Aligned.of_differs (rooted : Path.isAbsolute one.directory = true)
    (founded : one.files.Founded)
    (normal : ∀ path, Reachable one roots path → ∃ slashes list, Path.Normal path slashes list)
    (unread : Unread settings one roots bound) (final : Overlays settings one bound finish)
    (differs : Differs settings one bound two)
    (agree : ∀ path paths now now', Reachable one roots path → (∀ path ∈ paths, path ∈ bound) →
      Overlays settings one paths now → Overlays settings two paths now' →
        SourceFile.load now' path = SourceFile.load now path) :
    Aligned settings one two roots bound where
  rooted := rooted
  directory := differs.directory
  source path paths now program source subset overlays load := by
    obtain ⟨slashes, list, normal⟩ := normal path source
    refine (overlays.load_iff founded normal fun isOutput => ?_).mp load
    exact unread.not_atOutput source List.prefix_rfl (isOutput.widen subset)
  agree := agree
  stores path paths now' code member subset overlays' :=
    (differs.overlaid final overlays' subset).stores final rooted member code

end

/-- A build of the entries over other files returns the same report, compiles the same files in the
same order and leaves the same files behind. -/
def Repeats (settings : BuildSettings) (entries : List String) (start : Workspace) (report : Report)
    (after : BuildState) : Prop :=
  ∃ after', Yields (build settings .empty entries) (.fresh start) (.ok report) after' ∧
    after'.compiled = after.compiled ∧
    ∀ place, after'.workspace.files.get? place = after.workspace.files.get? place

/-- A build that returns can be repeated over the same files with other outputs in them, or with some
of them missing, as long as no source stands at an output or below one. The directories above the
outputs may differ as well, if whatever is missing before a build is missing after it; and then the
build can be repeated over the files that it has left behind. -/
theorem build_repeats {one : Workspace} {entries : List String}
    (rooted : Path.isAbsolute one.directory = true) (founded : one.files.Founded)
    (run : Yields (build settings .empty entries) (.fresh one) (.ok report) after)
    (unread : Unread settings one (entries.map one.absolute) after.compiled) :
    (∀ two, Differs settings one after.compiled two →
      (∀ place, ¬ AtOutput settings one after.compiled place →
        two.files.get? place = one.files.get? place) →
      Repeats settings entries two report after) ∧
    (∀ two, Differs settings one after.compiled two →
      (∀ path, Reachable one (entries.map one.absolute) path →
        SourceFile.load one path = .error (.missingSource path) ∨
          SourceFile.load two path = .error (.missingSource path) →
            SourceFile.load after.workspace path = .error (.missingSource path)) →
      Repeats settings entries two report after) ∧
    ((∀ path, Reachable one (entries.map one.absolute) path →
        SourceFile.load one path = .error (.missingSource path) →
          SourceFile.load after.workspace path = .error (.missingSource path)) →
      Repeats settings entries after.workspace report after) := by
  rcases build_attempts run with ⟨results, paths, attempts, _⟩ | ⟨_, _, impossible⟩
  · have final : Overlays settings one after.compiled after.workspace :=
      attempts.overlays rooted (.nil one)
    have normal (path : String) (source : Reachable one (entries.map one.absolute) path) :=
      Reachable.normal rooted source
    have repeats {two : Workspace} (differs : Differs settings one after.compiled two)
        (agree : ∀ path paths now now', Reachable one (entries.map one.absolute) path →
          (∀ path ∈ paths, path ∈ after.compiled) → Overlays settings one paths now →
            Overlays settings two paths now' → SourceFile.load now' path = SourceFile.load now path) :
        Repeats settings entries two report after := by
      have aligned := Aligned.of_differs rooted founded normal unread final differs agree
      obtain ⟨after', run', twins⟩ := build_inStep aligned (.start one) (.start two) .fresh
        (fun _ member => List.mem_map_of_mem member) run fun _ => id
      exact ⟨after', run', twins.compiled, twins.get?_eq differs⟩
    have across {two : Workspace} (differs : Differs settings one after.compiled two)
        (missing : ∀ path, Reachable one (entries.map one.absolute) path →
          SourceFile.load one path = .error (.missingSource path) ∨
            SourceFile.load two path = .error (.missingSource path) →
              SourceFile.load after.workspace path = .error (.missingSource path)) :
        Repeats settings entries two report after := by
      refine repeats differs fun path _ _ _ source => ?_
      obtain ⟨_, _, normal⟩ := normal path source
      exact load_eq_of_missing unread normal source final differs (missing path source)
    refine ⟨fun two differs same => repeats differs fun path _ _ _ source => ?_, fun two => across,
      fun missing => across final.differs fun path source => ?_⟩
    · obtain ⟨_, _, normal⟩ := normal path source
      exact load_eq_of_same unread normal source differs.directory same
    · rintro (absent | absent)
      · exact missing path source absent
      · exact absent
  · cases impossible

/-- The two files that import each other, with old outputs. -/
def outputProject (old : List (Location × Entry)) : Workspace :=
  ⟨⟨brokenProject.files.entries ++ old⟩, "/", "", ""⟩

/-- Of outputs, there is at most the one of the second file. -/
def OldOutput (entry : Location × Entry) : Prop :=
  entry.1 = ["out"] ∧ entry.2 = .directory ∨ entry.1 = ["out", "b.js"] ∧ entry.2 ≠ .directory

section
variable {old old' : List (Location × Entry)}

private theorem output_places (place : Location) :
    (AtOutput Session.singleSettings (outputProject old) ["/b.as"] place ↔ place = ["out", "b.js"]) ∧
    (AboveOutput Session.singleSettings (outputProject old) ["/b.as"] place ↔
      place = [] ∨ place = ["out"]) := by
  have slot : Slot "out" "b.js" (Session.singleSettings.outputPath "/b.as") := by decide
  have rooted : (outputProject old).rooted
      (Path.directory (Session.singleSettings.outputPath "/b.as")) = "/out" := by
    have above : Path.directory (Session.singleSettings.outputPath "/b.as") = "/out" := by decide
    rw [above]
    exact if_pos (.inr (by decide))
  have parts : FileTree.leading (FileTree.pathParts "/out") = ["out"] := by decide
  constructor
  · simp only [AtOutput, List.mem_singleton, exists_eq_left, slot.location, eq_comm]
  · simp only [AboveOutput, Workspace.Passes, FileTree.Passes, List.mem_singleton, exists_eq_left,
      rooted, parts, List.prefix_cons_iff, List.prefix_nil]
    constructor
    · rintro ⟨list, rfl | ⟨rest, rfl, rfl⟩, rfl⟩
      · exact .inl rfl
      · exact .inr rfl
    · rintro (rfl | rfl)
      · exact ⟨[], .inl rfl, rfl⟩
      · exact ⟨["out"], .inr ⟨[], rfl, rfl⟩, rfl⟩

theorem get?_output (place : Location) : (outputProject old).files.get? place =
    (brokenProject.files.get? place).or (old.lookup place) := by
  unfold FileTree.get?
  split
  · rfl
  · exact List.lookup_append

/-- Where outputs are not, there is nothing old. -/
theorem lookup_old (outputs : ∀ entry ∈ old, OldOutput entry) (found : old.lookup place = some entry) :
    place = ["out"] ∧ entry = .directory ∨ place = ["out", "b.js"] ∧ entry ≠ .directory := by
  obtain ⟨before, after, rfl, _⟩ := List.lookup_eq_some_iff.mp found
  exact outputs (place, entry) (by simp)

private theorem output_differs (outputs : ∀ entry ∈ old, OldOutput entry)
    (outputs' : ∀ entry ∈ old', OldOutput entry) :
    Differs Session.singleSettings (outputProject old) ["/b.as"] (outputProject old') := by
  refine ⟨rfl, fun place aside below => ?_, fun place isOutput => ?_, fun place above => ?_⟩
  · rw [(output_places place).1] at aside
    rw [(output_places place).2, not_or] at below
    have none {old : List (Location × Entry)} (outputs : ∀ entry ∈ old, OldOutput entry) :
        old.lookup place = none := by
      rw [Option.eq_none_iff_forall_ne_some]
      intro entry found
      rcases lookup_old outputs found with ⟨same, _⟩ | ⟨same, _⟩
      · exact below.2 same
      · exact aside same
    rw [get?_output, get?_output, none outputs, none outputs']
  · obtain rfl := (output_places place).1.mp isOutput
    intro found
    rw [get?_output] at found
    rcases lookup_old outputs' found with ⟨same, _⟩ | ⟨_, isFile⟩
    · cases same
    · exact isFile rfl
  · rcases (output_places place).2.mp above with rfl | rfl
    · exact .inr rfl
    · rw [get?_output]
      cases found : old'.lookup ["out"] with
      | none => exact .inl rfl
      | some entry =>
        rcases lookup_old outputs' found with ⟨_, rfl⟩ | ⟨same, _⟩
        · exact .inr rfl
        · cases same

end

/-- The old output of the second file, in its directory. -/
def oldOutputs : List (Location × Entry) :=
  [(["out"], .directory), (["out", "b.js"], .file "old".toUTF8)]

private theorem output_breaks (outputs : ∀ entry ∈ old, OldOutput entry) :
    Breaks (outputProject old) := by
  have free : Free "out" (outputProject old).files := by
    refine ⟨(output_differs outputs outputs).passing _ ((output_places _).2.mpr (.inr rfl)), ?_⟩
    intro name found
    rw [get?_output] at found
    rcases lookup_old outputs found with ⟨same, _⟩ | ⟨_, isFile⟩
    · cases same
    · exact isFile rfl
  have missing : old.lookup ["missing.as"] = none := by
    rw [Option.eq_none_iff_forall_ne_some]
    intro entry found
    rcases lookup_old outputs found with ⟨same, _⟩ | ⟨same, _⟩
    · exact absurd same (by decide)
    · exact absurd same (by decide)
  refine ⟨rfl, ?_, free, ?_, ?_, ?_⟩
  · exact List.length_pos_of_mem (List.mem_append_left old List.mem_cons_self)
  · rw [get?_output]
    rfl
  · rw [get?_output]
    rfl
  · rw [get?_output, missing]
    rfl

private theorem output_founded : (outputProject oldOutputs).files.Founded := by
  intro place name entry found
  rw [FileTree.get?, if_neg (by simp)] at found
  obtain ⟨before, after, same, _⟩ := List.lookup_eq_some_iff.mp found
  have listed : (place ++ [name], entry) ∈ (outputProject oldOutputs).files.entries := by
    rw [same]
    simp
  have places : ∀ other ∈ (outputProject oldOutputs).files.entries,
      (outputProject oldOutputs).files.get? other.1.dropLast = some .directory := by decide
  have above := places _ listed
  rwa [List.dropLast_concat] at above

/-- A build of two files that import each other, of which the first one fails, over old outputs. It is
the same without the old output, without its directory as well, and when it is repeated. -/
theorem build_repeats_circle :
    (outputProject oldOutputs).files.Founded ∧ ∃ report after,
      Yields (build Session.singleSettings .empty ["a.as", "b.as"]) (.fresh (outputProject oldOutputs))
        (.ok report) after ∧
      Unread Session.singleSettings (outputProject oldOutputs) ["/a.as", "/b.as"] after.compiled ∧
      Repeats Session.singleSettings ["a.as", "b.as"] (outputProject [(["out"], .directory)]) report
        after ∧
      Repeats Session.singleSettings ["a.as", "b.as"] (outputProject []) report after ∧
      Repeats Session.singleSettings ["a.as", "b.as"] after.workspace report after := by
  have outputs : ∀ entry ∈ oldOutputs, OldOutput entry := by
    simp [oldOutputs, OldOutput]
  have emptied : ∀ entry ∈ [((["out"], .directory) : Location × Entry)], OldOutput entry := by
    simp [OldOutput]
  have breaks := output_breaks outputs
  obtain ⟨report, after, run, _, compiled, missing⟩ := breaks.build
  have roots : ["a.as", "b.as"].map (outputProject oldOutputs).absolute = ["/a.as", "/b.as"] := by
    decide
  have known {path : String}
      (source : Reachable (outputProject oldOutputs) ["/a.as", "/b.as"] path) :
      path ∈ ["/a.as", "/b.as", "/missing.as"] := breaks.boxed.reachable (by decide) source
  have unread : Unread Session.singleSettings (outputProject oldOutputs) ["/a.as", "/b.as"]
      after.compiled := by
    intro path member source reachable
    rw [compiled, List.mem_singleton] at member
    subst member
    have apart : ∀ source ∈ ["/a.as", "/b.as", "/missing.as"],
        ¬ (outputProject oldOutputs).location (Session.singleSettings.outputPath "/b.as") <+:
          (outputProject oldOutputs).location source := by decide
    exact apart source (known reachable)
  have absent {path : String} (source : Reachable (outputProject oldOutputs) ["/a.as", "/b.as"] path)
      {workspace : Workspace} (breaks : Breaks workspace)
      (unloaded : SourceFile.load workspace path = .error (.missingSource path)) :
      SourceFile.load after.workspace path = .error (.missingSource path) := by
    have member := known source
    simp only [List.mem_cons, List.not_mem_nil, or_false] at member
    rcases member with rfl | rfl | rfl
    · cases breaks.loads.1.symm.trans unloaded
    · cases breaks.loads.2.1.symm.trans unloaded
    · exact missing
  have differs {old : List (Location × Entry)} (outputs' : ∀ entry ∈ old, OldOutput entry) :
      Differs Session.singleSettings (outputProject oldOutputs) after.compiled (outputProject old) :=
    compiled.symm ▸ output_differs outputs outputs'
  obtain ⟨same, across, again⟩ := build_repeats rfl output_founded run (roots.symm ▸ unread)
  rw [roots] at across again
  refine ⟨output_founded, report, after, run, unread, ?_, ?_, ?_⟩
  · refine same _ (differs emptied) fun place aside => ?_
    rw [compiled, (output_places place).1] at aside
    have other : (place == ["out", "b.js"]) = false := beq_eq_false_iff_ne.mpr aside
    rw [get?_output, get?_output]
    simp only [oldOutputs, List.lookup_cons, other, List.lookup_nil]
  · refine across _ (differs fun _ member => absurd member List.not_mem_nil) fun path source unloaded => ?_
    rcases unloaded with unloaded | unloaded
    · exact absent source breaks unloaded
    · exact absent source (output_breaks fun _ member => absurd member List.not_mem_nil) unloaded
  · exact again fun path source => absent source breaks

/-- The second file imports what would be below the output of the first one. -/
def belowProject (old : List (Location × Entry)) : Workspace :=
  ⟨⟨[(["q.as"], .file "".toUTF8), (["r.as"], .file "import(\"out/q.js/x\");".toUTF8),
    (["out"], .directory)] ++ old⟩, "/", "", ""⟩

private theorem load_below {workspace : Workspace}
    (text : SourceFile.read workspace "/r.as" = .ok "import(\"out/q.js/x\");") :
    SourceFile.load workspace "/r.as" = .ok (circleProgram "out/q.js/x" 21) :=
  load_circle text (by decide +kernel)

/-- The old output of the first file. -/
def oldOutput : List (Location × Entry) := [(["out", "q.js"], .file "old".toUTF8)]

/-- Why the import fails without an old output, and with it. -/
def belowFailure (old : Bool) : Failure :=
  importFailure "/r.as" ⟨⟨1, 1⟩, ⟨1, 21⟩⟩ "out/q.js/x"
    (bif old then .reported ⟨.reading, .sourceUnreadable "/out/q.js/x" "Not a directory", none, none⟩
      else .missingSource "/out/q.js/x")

private theorem below_build (old : Bool) : ∃ report after,
    Yields (build Session.singleSettings .empty ["r.as", "q.as"])
      (.fresh (belowProject (bif old then oldOutput else []))) (.ok report) after ∧
    after.compiled = ["/q.as"] ∧ report.failed = [("/r.as", (belowFailure old).message)] := by
  have unloaded {workspace : Workspace} {failure : Failure}
      (unread : SourceFile.read workspace "/out/q.js/x" = .error failure) :
      SourceFile.load workspace (importTarget "/r.as" "out/q.js/x") = .error failure := by
    change SourceFile.load workspace "/out/q.js/x" = _
    rw [SourceFile.load, unread]
    rfl
  cases old with
  | false =>
    obtain ⟨report, run, failed⟩ := @build_circle "r.as" _ _ _ _ Session.singleSettings "q.as"
      [("/r.as", (belowFailure false).message)] (belowProject []) _ (by decide) (by decide)
      (load_below (by decide +kernel)) (unloaded rfl) rfl (by decide +kernel)
    exact ⟨report, _, run, by decide +kernel, failed⟩
  | true =>
    obtain ⟨report, run, failed⟩ := @build_circle "r.as" _ _ _ _ Session.singleSettings "q.as"
      [("/r.as", (belowFailure true).message)] (belowProject oldOutput) _ (by decide) (by decide)
      (load_below (by decide +kernel)) (unloaded rfl) rfl (by decide +kernel)
    exact ⟨report, _, run, by decide +kernel, failed⟩

/-- A build is not repeated over its own files if it has made a directory where one was missing that is
imported. An old output is noticed by an import from below it. -/
theorem build_old_seen :
    (∃ report after report' after',
      Yields (build (pairSettings "lib") .empty ["r.as", "q.as"]) (.fresh libraryProject)
        (.ok report) after ∧
      Yields (build (pairSettings "lib") .empty ["r.as", "q.as"]) (.fresh after.workspace)
        (.ok report') after' ∧
      report'.failed ≠ report.failed) ∧
    (∀ place, ¬ AtOutput Session.singleSettings (belowProject []) ["/q.as"] place →
      (belowProject oldOutput).files.get? place = (belowProject []).files.get? place) ∧
    ∃ report after report' after',
      Yields (build Session.singleSettings .empty ["r.as", "q.as"]) (.fresh (belowProject []))
        (.ok report) after ∧
      Yields (build Session.singleSettings .empty ["r.as", "q.as"]) (.fresh (belowProject oldOutput))
        (.ok report') after' ∧
      after.compiled = ["/q.as"] ∧ after'.compiled = ["/q.as"] ∧ report'.failed ≠ report.failed := by
  refine ⟨?_, ?_, ?_⟩
  · obtain ⟨report, run, failed⟩ := library_missing
    obtain ⟨report', run', failed'⟩ := @library_build [("/r.as", (libraryFailure true).message)]
      (afterNext (pairSettings "lib") libraryProject "/r.as" "q.as" (libraryFailure false)).2.workspace
      true (by decide +kernel) (by decide +kernel) (by decide +kernel) (by decide +kernel)
    refine ⟨report, _, report', _, run, run', ?_⟩
    rw [failed, failed']
    decide
  · intro place aside
    have place' : (belowProject []).location (Session.singleSettings.outputPath "/q.as") =
        ["out", "q.js"] := by decide
    have other : (place == ["out", "q.js"]) = false := by
      refine beq_eq_false_iff_ne.mpr fun same => aside ⟨"/q.as", List.mem_cons_self, ?_⟩
      rw [place', same]
    have none : oldOutput.lookup place = none := by
      simp only [oldOutput, List.lookup_cons, other, List.lookup_nil]
    unfold FileTree.get? belowProject
    rw [List.lookup_append, List.lookup_append, none]
    rfl
  · obtain ⟨report, after, run, compiled, failed⟩ := below_build false
    obtain ⟨report', after', run', compiled', failed'⟩ := below_build true
    refine ⟨report, after, report', after', run, run', compiled, compiled', ?_⟩
    rw [failed, failed']
    decide

end Build

end ScriptKit
