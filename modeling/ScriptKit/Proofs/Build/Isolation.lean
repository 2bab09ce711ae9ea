import ScriptKit.Proofs.Build.Attempts
import ScriptKit.Proofs.Build.Storing
import ScriptKit.Proofs.Build.Termination

/-!
What ends a build before its report. As long as outputs can be stored, reading them back never fails,
and of all that can be wrong with source files only two things are not put down to an entry: a null
character in a path, and an integer with too many digits.
-/
namespace ScriptKit

namespace SourceFile

variable {failure : Failure}

theorem read_eq_error {workspace : Workspace} (failed : read workspace path = .error failure) :
    Build.Recorded failure ∨
      failure = .nullByte ∧ FileTree.hasNull (workspace.rooted path) = true := by
  unfold read at failed
  split at failed
  · cases failed
    exact .inl (.inr rfl)
  · cases failed
    exact .inl (.inl ⟨_, rfl⟩)
  · cases failed
    rename_i refused
    refine .inr ⟨rfl, ?_⟩
    unfold Workspace.read FileTree.read at refused
    split at refused
    · assumption
    · split at refused <;> cases refused
  · split at failed
    · cases failed
    · cases failed
      exact .inl (.inl ⟨_, rfl⟩)

private theorem ofSource_eq_error (failed : Program.ofSource source file = .error fault) :
    Build.Recorded (.ofSource fault) ∨
      ∃ digits, Excessive source digits ∧ fault = .oversizedInteger digits := by
  unfold Program.ofSource at failed
  split at failed
  · unfold Program.ofStream at failed
    split at failed
    · cases failed
    · cases failed
      exact .inl (.inl ⟨_, rfl⟩)
  · rename_i fault' refused
    cases failed
    cases fault' with
    | unexpected position char => exact .inl (.inl ⟨_, rfl⟩)
    | oversizedInteger digits =>
      exact .inr ⟨digits, TokenStream.ofSource_eq_oversized.mp refused, rfl⟩

/-- A file cannot be loaded if it cannot be read, or its text is no program. -/
theorem load_cases {workspace : Workspace} (failed : load workspace path = .error failure) :
    read workspace path = .error failure ∨ ∃ source fault, read workspace path = .ok source ∧
      Program.ofSource source (some path) = .error fault ∧ failure = .ofSource fault := by
  unfold load at failed
  rcases found : read workspace path with fault | source
  · rw [found] at failed
    cases failed
    exact .inl rfl
  · rw [found] at failed
    rcases parsed : Program.ofSource source (some path) with fault | program
    · simp only [bind, Except.bind, parsed] at failed
      cases failed
      exact .inr ⟨source, fault, rfl, parsed, rfl⟩
    · simp only [bind, Except.bind, parsed] at failed
      cases failed

/-- Why a source file cannot be loaded. -/
theorem load_eq_error {workspace : Workspace} (failed : load workspace path = .error failure) :
    Build.Recorded failure ∨
      (failure = .nullByte ∧ FileTree.hasNull (workspace.rooted path) = true) ∨
      ∃ source digits, read workspace path = .ok source ∧ Excessive source digits ∧
        failure = .oversizedInteger digits := by
  rcases load_cases failed with unread | ⟨source, fault, text, unparsed, rfl⟩
  · exact (read_eq_error unread).imp_right .inl
  · rcases ofSource_eq_error unparsed with recorded | ⟨digits, excessive, rfl⟩
    · exact .inl recorded
    · exact .inr (.inr ⟨source, digits, text, excessive, rfl⟩)

/-- Only a file that is not there is told of as missing. -/
theorem load_isMissing {workspace : Workspace} (failed : load workspace path = .error failure)
    (missing : failure.isMissingFile = true) :
    failure = .missingSource path ∧
      ∃ place, workspace.read path = .error (.failed .notFound place) := by
  rcases load_cases failed with unread | ⟨_, fault, _, _, rfl⟩
  · unfold read at unread
    split at unread
    · rename_i place absent
      cases unread
      exact ⟨rfl, place, absent⟩
    · cases unread
      cases missing
    · cases unread
      cases missing
    · split at unread
      · cases unread
      · cases unread
        cases missing
  · cases fault <;> cases missing

end SourceFile

namespace Build

/-- Every compiled file has a text as its output. -/
def Legible (settings : BuildSettings) (state : BuildState) : Prop :=
  ∀ path ∈ state.compiled, ∃ text : String,
    state.workspace.read (settings.outputPath path) = .ok text.toUTF8

namespace Legible

variable {before after : BuildState} {reached : Workspace}

theorem of_grows (legible : Legible settings before)
    (grows : before.workspace.Grows (fun _ => False) after.workspace)
    (compiled : after.compiled = before.compiled) : Legible settings after := by
  intro path member
  rw [compiled] at member
  obtain ⟨text, found⟩ := legible path member
  exact ⟨text, grows.read found not_false⟩

theorem shown (legible : Legible settings before) (shown : Shows before after) :
    Legible settings after :=
  legible.of_grows shown.grows shown.compiled

/-- One more output. It may take the place of an earlier one. -/
theorem stored (legible : Legible settings before)
    (stores : before.workspace.Stores (settings.outputPath path) code reached) :
    Legible settings (BuildState.record { before with workspace := reached } path) := by
  intro other member
  rcases List.mem_append.mp member with earlier | last
  · obtain ⟨text, found⟩ := legible other earlier
    by_cases same : before.workspace.location (settings.outputPath other) =
        before.workspace.location (settings.outputPath path)
    · obtain ⟨content, found⟩ := stores.grows.readable found
      rw [← stores.grows.location, ← stores.grows.location] at same
      rw [Workspace.read_unique found stores.read same] at found
      exact ⟨code, found⟩
    · exact ⟨text, stores.grows.read found same⟩
  · rw [List.mem_singleton.mp last]
    exact ⟨code, stores.read⟩

theorem read (legible : Legible settings before) (known : path ∈ before.compiled)
    (run : Yields (readOutput settings path) before result after) : ∃ text, result = .ok text := by
  obtain ⟨text, found⟩ := legible path known
  have run := run.rest .get
  rw [found] at run
  simp only [Text.ofFile, Text.decode_toUTF8] at run
  exact ⟨_, (yields_pure.mp run).1⟩

end Legible

mutual

theorem Compiles.legible : Compiles settings depth path before events result after →
    Legible settings before → Legible settings after
  | .exhausted, legible => legible
  | .cached _ read, legible => legible.shown (readOutput_shows read)
  | .cyclic _ _ warned, legible => legible.shown (warn_shows warned)
  | .unloaded _ _ _, legible => legible
  | .unfilled _ _ _ filled, legible => filled.legible legible
  | .unwritten _ _ _ filled refused, legible => by
    have reached := filled.legible legible
    obtain ⟨_, _, grows, rfl⟩ := writeOutput_refused refused
    exact reached.of_grows grows rfl
  | .written _ _ _ filled wrote told, legible => by
    have reached := filled.legible legible
    obtain ⟨_, stores, rfl⟩ := writeOutput_ok wrote
    have shown := info_shows told
    exact (reached.stored stores).of_grows shown.grows shown.compiled

theorem Fills.legible : Fills settings depth file fragments before events result after →
    Legible settings before → Legible settings after
  | .nil, legible => legible
  | .text following, legible => following.legible legible
  | .failed imported, legible => imported.legible legible
  | .site imported following, legible => following.legible (imported.legible legible)

end

theorem Session.legible (session : Session settings events disturbances state)
    (undisturbed : Undisturbed settings disturbances) : Legible settings state := by
  induction session with
  | start => exact nofun
  | compile earlier called ih =>
    exact called.legible (ih undisturbed)
  | shown earlier shown ih => exact (ih undisturbed).shown shown
  | disturbed earlier workspace ih =>
    intro path member
    obtain ⟨text, found⟩ := ih (fun state workspace member =>
      undisturbed state workspace (List.mem_cons_of_mem _ member)) path member
    obtain ⟨same, _⟩ := undisturbed _ workspace List.mem_cons_self path member
    exact ⟨text, same.trans found⟩

mutual

/-- The files that a build can come to: the ones it starts with, and whatever one of them imports in a
workspace that the build can come to. -/
inductive Sought (settings : BuildSettings) (start : Workspace) (roots : List String) :
    String → Prop where
  | root (member : path ∈ roots) : Sought settings start roots path
  | imported (sought : Sought settings start roots file)
      (reached : Reached settings start roots workspace)
      (load : SourceFile.load workspace file = .ok program)
      (member : .site span name ∈ program.emit) (named : target = importTarget file name) :
      Sought settings start roots target

/-- The workspaces that a build can come to: outputs of such files are stored, if the files can be
loaded at some time, in any order and with any text that imports nothing. The console may change as
well. -/
inductive Reached (settings : BuildSettings) (start : Workspace) (roots : List String) :
    Workspace → Prop where
  | unchanged : Reached settings start roots start
  | shown (earlier : Reached settings start roots before) (files : after.files = before.files)
      (directory : after.directory = before.directory) : Reached settings start roots after
  | stored (earlier : Reached settings start roots before)
      (sought : Sought settings start roots path)
      (reached : Reached settings start roots workspace)
      (load : SourceFile.load workspace path = .ok program) (inert : Inert code)
      (stores : before.Stores (settings.outputPath path) code after) :
      Reached settings start roots after

end

/-- The outputs of all files that can be loaded can be stored at all times. -/
def Storable (settings : BuildSettings) (start : Workspace) (roots : List String) : Prop :=
  ∀ path workspace program reached code, Sought settings start roots path →
    Reached settings start roots workspace → SourceFile.load workspace path = .ok program →
      Reached settings start roots reached → Inert code →
        ∃ after, reached.Stores (settings.outputPath path) code after

/-- What ends a build: the path of a file that it comes to has a null character, or the text of such
a file has an integer with too many digits. -/
inductive Escapes (settings : BuildSettings) (start : Workspace) (roots : List String) :
    Failure → Prop where
  | path (sought : Sought settings start roots path)
      (null : FileTree.hasNull (start.rooted path) = true) : Escapes settings start roots .nullByte
  | integer (sought : Sought settings start roots path)
      (reached : Reached settings start roots workspace)
      (text : SourceFile.read workspace path = .ok source) (excessive : Excessive source digits) :
      Escapes settings start roots (.oversizedInteger digits)

theorem Reached.directory {start : Workspace} : Reached settings start roots workspace →
    workspace.directory = start.directory
  | .unchanged => rfl
  | .shown earlier _ directory => directory.trans earlier.directory
  | .stored earlier _ _ _ _ stores => stores.grows.directory.trans earlier.directory

/-- A failure of a compilation: recorded, or what ends a build, or a bound on nesting that is too low
for the files. -/
inductive Explained (settings : BuildSettings) (start : Workspace) (roots : List String) :
    Failure → Prop where
  | recorded {failure : Failure} (recorded : Recorded failure) :
      Explained settings start roots failure
  | escapes {failure : Failure} (escapes : Escapes settings start roots failure) :
      Explained settings start roots failure
  | exhausted : Explained settings start roots .nestedTooDeep

section
variable {failure : Failure}

theorem recorded_importFailure (recorded : Recorded failure) :
    Recorded (importFailure file span path failure) := by
  unfold importFailure
  rcases recorded with ⟨error, rfl⟩ | missing
  · exact .inl ⟨_, rfl⟩
  · rw [if_pos missing]
    exact .inl ⟨_, rfl⟩

/-- At the place of an import, a failure is explained as well. -/
theorem Explained.imported (explained : Explained settings start roots failure) :
    Explained settings start roots (importFailure file span path failure) := by
  cases explained with
  | recorded recorded => exact .recorded (recorded_importFailure recorded)
  | escapes escapes =>
    cases escapes with
    | path sought null => exact .escapes (.path sought null)
    | integer sought reached text excessive =>
      exact .escapes (.integer sought reached text excessive)
  | exhausted => exact .exhausted

end

/-- A state that a build can come to. -/
structure Underway (settings : BuildSettings) (start : Workspace) (roots : List String)
    (state : BuildState) : Prop where
  kept : Kept settings start state
  legible : Legible settings state
  reached : Reached settings start roots state.workspace

namespace Underway

variable {start : Workspace} {before after : BuildState} {failure : Failure}

theorem enter (underway : Underway settings start roots before) :
    Underway settings start roots (before.enter path) :=
  ⟨underway.kept.congr rfl rfl rfl, underway.legible, underway.reached⟩

theorem shown (underway : Underway settings start roots before) (shown : Shows before after) :
    Underway settings start roots after :=
  ⟨underway.kept.shown shown, underway.legible.shown shown,
    .shown underway.reached shown.files shown.directory⟩

theorem unloaded (underway : Underway settings start roots before)
    (sought : Sought settings start roots path)
    (load : SourceFile.load before.workspace path = .error failure) :
    Explained settings start roots failure := by
  rcases SourceFile.load_eq_error load with
    recorded | ⟨rfl, null⟩ | ⟨source, digits, text, excessive, rfl⟩
  · exact .recorded recorded
  · unfold Workspace.rooted at null
    rw [underway.reached.directory] at null
    exact .escapes (.path sought null)
  · exact .escapes (.integer sought underway.reached text excessive)

end Underway

/-- The output of a file that could be loaded and filled is not refused. -/
theorem Storable.not_refused {failure : Failure} (storable : Storable settings start roots)
    (underway : Underway settings start roots before) (reached : Underway settings start roots middle)
    (sought : Sought settings start roots path)
    (load : SourceFile.load before.workspace path = .ok program)
    (filled : Fills settings depth path program.emit (before.enter path) events (.ok code) middle) :
    ¬ Yields (writeOutput (settings.outputPath path) code) middle (.error failure) after := by
  intro refused
  obtain ⟨_, _, inert⟩ := filled.inert underway.enter.kept fun _ => SourceFile.load_inert load
  obtain ⟨workspace, stores⟩ := storable path _ _ _ _ sought underway.reached load reached.reached
    (inert _ rfl)
  obtain ⟨_, none, _⟩ := writeOutput_refused refused
  exact none workspace stores

mutual

/-- A compilation leads on to such a state, and its failure is explained. -/
theorem Compiles.underway : Compiles settings depth path before events result after →
    Storable settings start roots → Underway settings start roots before →
    Sought settings start roots path →
    Underway settings start roots after ∧
      ∀ failure, result = .error failure → Explained settings start roots failure
  | .exhausted, _, underway, _ => by
    refine ⟨underway, ?_⟩
    rintro _ ⟨⟩
    exact .exhausted
  | .cached known read, _, underway, _ => by
    refine ⟨underway.shown (readOutput_shows read), ?_⟩
    rintro _ rfl
    obtain ⟨_, impossible⟩ := underway.legible.read known read
    cases impossible
  | .cyclic _ _ warned, _, underway, _ =>
    ⟨underway.shown (warn_shows warned), fun _ impossible => nomatch impossible⟩
  | .unloaded _ _ load, _, underway, sought => by
    refine ⟨underway, ?_⟩
    rintro _ ⟨⟩
    exact underway.unloaded sought load
  | .unfilled _ _ load filled, storable, underway, sought => by
    obtain ⟨reached, explained⟩ := filled.underway storable underway.enter fun span name member =>
      .imported sought underway.reached load member rfl
    exact ⟨⟨reached.kept.congr rfl rfl rfl, reached.legible, reached.reached⟩, explained⟩
  | .unwritten _ _ load filled refused, storable, underway, sought => by
    obtain ⟨reached, _⟩ := filled.underway storable underway.enter fun span name member =>
      .imported sought underway.reached load member rfl
    exact absurd refused (storable.not_refused underway reached sought load filled)
  | .written _ _ load filled wrote told, storable, underway, sought => by
    obtain ⟨reached, _⟩ := filled.underway storable underway.enter fun span name member =>
      .imported sought underway.reached load member rfl
    obtain ⟨_, _, inert⟩ := filled.inert underway.enter.kept fun _ => SourceFile.load_inert load
    have kept := reached.kept.written (inert _ rfl) wrote
    have shown := info_shows told
    obtain ⟨_, stores, rfl⟩ := writeOutput_ok wrote
    refine ⟨⟨kept.congr shown.files shown.directory shown.compiled,
      (reached.legible.stored stores).of_grows shown.grows shown.compiled, ?_⟩,
      fun _ impossible => nomatch impossible⟩
    exact .shown (.stored reached.reached sought underway.reached load (inert _ rfl) stores)
      shown.files shown.directory

theorem Fills.underway : Fills settings depth file fragments before events result after →
    Storable settings start roots → Underway settings start roots before →
    (∀ span name, .site span name ∈ fragments →
      Sought settings start roots (importTarget file name)) →
    Underway settings start roots after ∧
      ∀ failure, result = .error failure → Explained settings start roots failure
  | .nil, _, underway, _ => ⟨underway, fun _ impossible => nomatch impossible⟩
  | .text following, storable, underway, sought => by
    obtain ⟨reached, explained⟩ := following.underway storable underway fun span name member =>
      sought span name (List.mem_cons_of_mem _ member)
    exact ⟨reached, fun failure same => explained failure (map_eq_error same)⟩
  | .failed imported, storable, underway, sought => by
    obtain ⟨reached, explained⟩ := imported.underway storable underway (sought _ _ List.mem_cons_self)
    refine ⟨reached, ?_⟩
    rintro _ ⟨⟩
    exact (explained _ rfl).imported
  | .site imported following, storable, underway, sought => by
    obtain ⟨middle, _⟩ := imported.underway storable underway (sought _ _ List.mem_cons_self)
    obtain ⟨reached, explained⟩ := following.underway storable middle fun span name member =>
      sought span name (List.mem_cons_of_mem _ member)
    exact ⟨reached, fun failure same => explained failure (map_eq_error same)⟩

end

section
variable {settings : BuildSettings} {start : Workspace} {roots : List String}

/-- Calls for one of the roots, which are normal paths. -/
theorem compile_underway (storable : Storable settings start roots)
    (normal : ∀ root ∈ roots, ∃ slashes list, Path.Normal root slashes list)
    (underway : Underway settings start roots before) (member : path ∈ roots)
    (run : Yields (compile settings path) before result after) :
    Underway settings start roots after ∧
      ∀ failure, result = .error failure → Explained settings start roots failure := by
  obtain ⟨slashes, list, normal⟩ := normal path member
  obtain ⟨events, called⟩ := compileWithin_traced (run.rest .get)
  rw [Workspace.absolute, normal.absolute_eq] at called
  exact called.underway storable underway (.root member)

theorem Attempts.underway (storable : Storable settings start roots)
    (normal : ∀ root ∈ roots, ∃ slashes list, Path.Normal root slashes list)
    (attempts : Attempts settings before results after) (underway : Underway settings start roots before)
    (within : ∀ path ∈ results.map Prod.fst, path ∈ roots) : Underway settings start roots after := by
  induction attempts with
  | nil => exact underway
  | cons called _ shown others ih =>
    obtain ⟨first, within⟩ := List.forall_mem_cons.mp within
    obtain ⟨reached, _⟩ := compile_underway storable normal underway first called
    exact ih (reached.shown shown) within

end

/-- Calls between which nobody touches an output do not nest too deep. -/
theorem Session.compile_ne (session : Session settings events disturbances state)
    (undisturbed : Undisturbed settings disturbances)
    (run : Yields (Build.compile settings path) state result after) :
    result ≠ .error .nestedTooDeep := by
  intro exhausted
  obtain ⟨events', called⟩ := compileWithin_traced (run.rest .get)
  obtain ⟨target, entered, member, length⟩ := called.deep exhausted
  obtain ⟨_, _, short⟩ :=
    called.length_lt session.orderly.1 session.idle (session.kept undisturbed).1 member
  rw [length, session.idle, List.length_nil, Nat.zero_add] at short
  exact Nat.lt_irrefl _ short

/-- After any calls, a build whose entries are different files and whose outputs can be stored gives
a report, in which the file of every entry is in exactly one table, and each was compiled in the state
that the ones before it had left. Otherwise an entry ended it, and then a path that the build came to
has a null character, or a file that it came to an integer with too many digits. -/
theorem Session.build_reports (session : Session settings events disturbances state)
    (undisturbed : Undisturbed settings disturbances)
    (rooted : Path.isAbsolute state.workspace.directory = true)
    (distinct : (entries.map state.workspace.absolute).Nodup)
    (storable : Storable settings state.workspace (entries.map state.workspace.absolute)) :
    (∃ results after,
      Yields (build settings .empty entries) state (.ok (tally settings results)) after ∧
      Attempts settings state results after ∧
      results.map Prod.fst = entries.map state.workspace.absolute ∧
      ∀ path ∈ entries.map state.workspace.absolute,
        (path ∈ (tally settings results).outputs.map Prod.fst ↔
          path ∉ (tally settings results).failed.map Prod.fst)) ∨
    ∃ failure after,
      Yields (build settings .empty entries) state (.error failure) after ∧
      Aborts settings state (entries.map state.workspace.absolute) failure after ∧
      Escapes settings state.workspace (entries.map state.workspace.absolute) failure := by
  have run := yields_run (build settings .empty entries) state
  rcases build_attempts run with ⟨results, paths, attempts, same⟩ | ⟨failure, aborts, same⟩
  · rw [same] at run
    rw [← paths] at distinct
    rw [Report.noteAll_eq distinct (by simp [Report.empty])] at run
    refine .inl ⟨results, _, run, attempts, paths, ?_⟩
    intro path member
    exact tally_exactly distinct (paths ▸ member)
  · rw [same] at run
    refine .inr ⟨failure, _, run, aborts, ?_⟩
    obtain ⟨unrecorded, results, path, later, middle, paths, attempts, failed⟩ := aborts
    have normal : ∀ root ∈ entries.map state.workspace.absolute,
        ∃ slashes list, Path.Normal root slashes list := by
      intro root member
      obtain ⟨entry, _, rfl⟩ := List.mem_map.mp member
      exact Path.absolute_normal rooted entry
    have underway : Underway settings state.workspace (entries.map state.workspace.absolute) state :=
      ⟨(session.kept undisturbed).1, session.legible undisturbed, .unchanged⟩
    have reached := attempts.underway storable normal underway fun path member => by
      rw [paths]
      exact List.mem_append_left _ member
    have next : path ∈ entries.map state.workspace.absolute := by simp [paths]
    obtain ⟨_, session⟩ := session.attempts attempts
    cases (compile_underway storable normal reached next failed).2 failure rfl with
    | recorded recorded => exact absurd recorded unrecorded
    | escapes escapes => exact escapes
    | exhausted => exact absurd rfl (session.compile_ne undisturbed failed)

/-- A project in the root directory, with the outputs in a box beside the sources. What the known
files import is known; they are in the root directory, or have a null character in their path. -/
structure Boxed (settings : BuildSettings) (start : Workspace) (box : String)
    (known : List String) : Prop where
  free : Free box start.files
  rooted : ∀ path ∈ known, Path.isAbsolute path = true
  closed : ∀ file ∈ known, ∀ program span name, SourceFile.load start file = .ok program →
    .site span name ∈ program.emit → importTarget file name ∈ known
  seated : ∀ path ∈ known, FileTree.hasNull path = true ∨
    ∃ name output, Slot box output (settings.outputPath path) ∧ FileTree.Shallow path name ∧
      name ≠ box

namespace Boxed

variable {settings : BuildSettings} {start : Workspace} {roots known : List String}

theorem closed_of_load (load : SourceFile.load start file = .ok program)
    (targets : program.emit.all fun
      | .text _ => true
      | .site _ name => known.contains (importTarget file name)) (program' : Program) (span : Span)
    (name : String) (load' : SourceFile.load start file = .ok program')
    (member : .site span name ∈ program'.emit) : importTarget file name ∈ known := by
  cases load.symm.trans load'
  exact List.contains_iff_mem.mp (List.all_eq_true.mp targets _ member)

theorem closed_of_error {failure : Failure} (failed : SourceFile.load start file = .error failure)
    (program : Program) (span : Span) (name : String)
    (load : SourceFile.load start file = .ok program) :
    .site span name ∈ program.emit → importTarget file name ∈ known := by
  cases failed.symm.trans load

/-- The sources stay what they are as long as nothing changes outside of the box. -/
theorem load_eq (boxed : Boxed settings start box known) (member : path ∈ known)
    (same : ∀ other, other ≠ box → workspace.files.get? [other] = start.files.get? [other]) :
    SourceFile.load workspace path = SourceFile.load start path := by
  rcases boxed.seated path member with null | ⟨name, _, _, shallow, apart⟩
  · have rooted (workspace : Workspace) : workspace.rooted path = path :=
      if_pos (.inr (boxed.rooted path member))
    apply SourceFile.load_congr
    rw [Workspace.read, Workspace.read, rooted, rooted, FileTree.read, FileTree.read, if_pos null,
      if_pos null]
  · exact SourceFile.load_shallow shallow (same name apart)

theorem slot (boxed : Boxed settings start box known) (member : path ∈ known)
    (load : SourceFile.load workspace path = .ok program) :
    ∃ output, Slot box output (settings.outputPath path) := by
  rcases boxed.seated path member with null | ⟨_, output, slot, _⟩
  · obtain ⟨_, _, found, _⟩ := SourceFile.load_eq_ok load
    have rooted : workspace.rooted path = path := if_pos (.inr (boxed.rooted path member))
    rw [Workspace.read, rooted, FileTree.read, if_pos null] at found
    cases found
  · exact ⟨output, slot⟩

mutual

theorem known_of_sought (boxed : Boxed settings start box known)
    (given : ∀ root ∈ roots, root ∈ known) : Sought settings start roots path → path ∈ known
  | .root member => given _ member
  | .imported sought reached load member named => by
    have file := boxed.known_of_sought given sought
    rw [boxed.load_eq file (boxed.free_of_reached given reached).2] at load
    exact named ▸ boxed.closed _ file _ _ _ load member

theorem free_of_reached (boxed : Boxed settings start box known)
    (given : ∀ root ∈ roots, root ∈ known) : Reached settings start roots workspace →
    Free box workspace.files ∧
      ∀ other, other ≠ box → workspace.files.get? [other] = start.files.get? [other]
  | .unchanged => ⟨boxed.free, fun _ _ => rfl⟩
  | .shown earlier files _ => by
    rw [files]
    exact boxed.free_of_reached given earlier
  | .stored earlier sought _ load _ stores => by
    obtain ⟨output, slot⟩ := boxed.slot (boxed.known_of_sought given sought) load
    obtain ⟨free, same⟩ := boxed.free_of_reached given earlier
    obtain ⟨after, stores', free', same'⟩ := free.stores slot _
    cases stores.unique stores'
    exact ⟨free', fun other apart => (same' other apart).trans (same other apart)⟩

end

theorem storable (boxed : Boxed settings start box known)
    (given : ∀ root ∈ roots, root ∈ known) : Storable settings start roots := by
  intro path workspace program reached code sought _ load reached' _
  obtain ⟨output, slot⟩ := boxed.slot (boxed.known_of_sought given sought) load
  obtain ⟨after, stores, _⟩ := (boxed.free_of_reached given reached').1.stores slot code
  exact ⟨after, stores⟩

end Boxed

/-- Of the two files, only the first can be read as a program. -/
def mixedProject : Workspace := flatProject [("a.as", ""), ("b.as", "@")]

theorem load_mixed : SourceFile.load mixedProject "/a.as" = .ok ⟨⟨⟨1, 1⟩, ⟨1, 1⟩⟩, []⟩ ∧
    (∀ program, SourceFile.load mixedProject "/b.as" ≠ .ok program) ∧
    SourceFile.load mixedProject "/c.as" = .error (.missingSource "/c.as") := by
  have first : FileTree.Shallow "/a.as" "a.as" := by decide
  have failed : (SourceFile.load mixedProject "/b.as").toBool = false := by decide +kernel
  refine ⟨load_empty (SourceFile.read_shallow first rfl (by decide)), ?_, rfl⟩
  intro program load
  rw [load] at failed
  cases failed

theorem mixed_boxed :
    Boxed Session.singleSettings mixedProject "out" ["/a.as", "/b.as", "/c.as"] := by
  obtain ⟨empty, unloaded, missing⟩ := load_mixed
  refine ⟨flat_free (by decide), by decide, ?_, ?_⟩
  · simp only [List.forall_mem_cons]
    refine ⟨Boxed.closed_of_load empty (by decide), ?_, Boxed.closed_of_error missing, nofun⟩
    intro program span name load
    exact absurd load (unloaded program)
  · simp only [List.forall_mem_cons]
    exact ⟨.inr ⟨"a.as", "a.js", by decide⟩, .inr ⟨"b.as", "b.js", by decide⟩,
      .inr ⟨"c.as", "c.js", by decide⟩, nofun⟩

/-- The second file is no program and the third is missing. Both are put down as failed. -/
theorem Session.build_reports_mixed :
    (Session singleSettings [] [] (.fresh mixedProject) ∧ Undisturbed singleSettings []) ∧
    (Path.isAbsolute mixedProject.directory = true ∧
      (["a.as", "b.as", "c.as"].map mixedProject.absolute).Nodup ∧
      Storable singleSettings mixedProject (["a.as", "b.as", "c.as"].map mixedProject.absolute)) ∧
    ∃ report after,
      Yields (build singleSettings .empty ["a.as", "b.as", "c.as"]) (.fresh mixedProject)
        (.ok report) after ∧
      report.outputs.map Prod.fst = ["/a.as"] ∧ report.failed.map Prod.fst = ["/b.as", "/c.as"] ∧
      ∀ path ∈ ["/a.as", "/b.as", "/c.as"],
        (path ∈ report.outputs.map Prod.fst ↔ path ∉ report.failed.map Prod.fst) := by
  have session : Session singleSettings [] [] (.fresh mixedProject) := .start mixedProject
  have undisturbed : Undisturbed singleSettings [] := nofun
  have paths : ["a.as", "b.as", "c.as"].map mixedProject.absolute = ["/a.as", "/b.as", "/c.as"] := by
    decide
  have rooted : Path.isAbsolute mixedProject.directory = true := by decide
  have distinct : (["a.as", "b.as", "c.as"].map mixedProject.absolute).Nodup := by decide
  have storable : Storable singleSettings mixedProject
      (["a.as", "b.as", "c.as"].map mixedProject.absolute) :=
    mixed_boxed.storable (by simp [paths])
  have tables : ((build singleSettings .empty ["a.as", "b.as", "c.as"]).run.run
      (.fresh mixedProject)).1.toOption.map (fun report =>
        (report.outputs.map Prod.fst, report.failed.map Prod.fst)) =
      some (["/a.as"], ["/b.as", "/c.as"]) := by decide +kernel
  refine ⟨⟨session, undisturbed⟩, ⟨rooted, distinct, storable⟩, ?_⟩
  rcases session.build_reports undisturbed rooted distinct storable with
    ⟨results, after, run, _, _, exactly⟩ | ⟨failure, after, run, _⟩
  · rw [run] at tables
    obtain ⟨outputs, failed⟩ := Prod.mk.inj (Option.some.inj tables)
    exact ⟨_, after, run, outputs, failed, paths ▸ exactly⟩
  · rw [run] at tables
    cases tables

/-- The first file imports a path that no tree accepts. -/
def nullProject : Workspace := flatProject [("a.as", "import(\"\x00\");"), ("b.as", "")]

private theorem load_null :
    SourceFile.load nullProject "/a.as" = .ok (circleProgram "\x00" 12) := by
  have shallow : FileTree.Shallow "/a.as" "a.as" := by decide
  exact load_circle (SourceFile.read_shallow shallow rfl (by decide)) (by decide +kernel)

private theorem null_boxed :
    Boxed Session.singleSettings nullProject "out" ["/a.as", "/b.as", "/\x00"] := by
  have shallow : FileTree.Shallow "/b.as" "b.as" := by decide
  have empty : SourceFile.load nullProject "/b.as" = _ :=
    load_empty (SourceFile.read_shallow shallow rfl (by decide))
  have unloaded : SourceFile.load nullProject "/\x00" = .error .nullByte := rfl
  refine ⟨flat_free (by decide), by decide, ?_, ?_⟩
  · simp only [List.forall_mem_cons]
    exact ⟨Boxed.closed_of_load load_null (by decide), Boxed.closed_of_load empty (by decide),
      Boxed.closed_of_error unloaded, nofun⟩
  · simp only [List.forall_mem_cons]
    exact ⟨.inr ⟨"a.as", "a.js", by decide⟩, .inr ⟨"b.as", "b.js", by decide⟩, .inl (by decide),
      nofun⟩

private theorem compile_null : Yields (compile Session.singleSettings "/a.as") (.fresh nullProject)
    (.error .nullByte) ((BuildState.fresh nullProject).enter "/a.as").leave := by
  have absolute : nullProject.absolute "/a.as" = "/a.as" := by decide
  have target : SourceFile.load nullProject (importTarget "/a.as" "\x00") = .error .nullByte := rfl
  have other : importTarget "/a.as" "\x00" ∉ ["/a.as"] := by decide
  have imported : Compiles Session.singleSettings 5 (importTarget "/a.as" "\x00")
      ((BuildState.fresh nullProject).enter "/a.as") _ (.error .nullByte) _ :=
    .unloaded List.not_mem_nil other target
  have called : Compiles Session.singleSettings 6 "/a.as" (.fresh nullProject) _
      (.error .nullByte) ((BuildState.fresh nullProject).enter "/a.as").leave :=
    .unfilled List.not_mem_nil List.not_mem_nil load_null (.failed imported)
  refine Yields.get.bind ?_
  dsimp only
  rw [show (BuildState.fresh nullProject).workspace = nullProject from rfl, absolute]
  exact called.yields

/-- The import ends the build, and the second file is not even attempted. -/
theorem build_aborts_null :
    (["a.as", "b.as"].map nullProject.absolute).Nodup ∧
    Storable Session.singleSettings nullProject (["a.as", "b.as"].map nullProject.absolute) ∧
    ∃ after, Yields (build Session.singleSettings .empty ["a.as", "b.as"]) (.fresh nullProject)
      (.error .nullByte) after ∧ after.compiled = [] := by
  have paths : ["a.as", "b.as"].map nullProject.absolute = ["/a.as", "/b.as"] := by decide
  refine ⟨by decide, null_boxed.storable (by simp [paths]), ?_⟩
  have first := yields_run (buildEntry Session.singleSettings .empty "a.as") (.fresh nullProject)
  obtain ⟨_, _, called, ended⟩ := buildEntry_cases first
  obtain ⟨rfl, rfl⟩ := compile_null.unique called
  rcases ended with ⟨recorded, _⟩ | ⟨_, same, _, left, failed⟩
  · rcases recorded _ rfl with ⟨_, impossible⟩ | impossible <;> cases impossible
  · cases same
    rw [failed, left] at first
    exact ⟨_, first.bind_error, rfl⟩

end Build
end ScriptKit
