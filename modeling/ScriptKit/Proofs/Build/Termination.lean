import ScriptKit.Proofs.Build.Inlining
import ScriptKit.Proofs.Build.Outputs

/-!
Compiling comes to an end, whatever the files import. Calls nest along imports of files that were
there at the start, since nothing that a build writes imports anything, and no file is entered again
while it is in progress. So they nest no deeper than the files allow, and the bound on nesting plays
no part in what a compilation gives.
-/
namespace ScriptKit.Build

/-- With the outer files in progress, the file was entered and loaded, and it imports the target. Its
content was there at the start. -/
def Descends (start : Workspace) (events : List Event) (outer : List String) (file target : String) :
    Prop :=
  ∃ state content program span name, .entered file state ∈ events ∧ state.inProgress = outer ∧
    state.workspace.read file = .ok content ∧
    start.files.get? (start.location file) = some (.file content) ∧
    SourceFile.load state.workspace file = .ok program ∧ .site span name ∈ program.emit ∧
    target = importTarget file name

/-- `Leads start events root stack target`: the imports of the files on the stack, the innermost
first, lead from the root to the target. -/
inductive Leads (start : Workspace) (events : List Event) (root : String) :
    List String → String → Prop where
  | here : Leads start events root [] root
  | step (outer : Leads start events root stack file)
      (descends : Descends start events stack file target) :
      Leads start events root (file :: stack) target

namespace Leads

variable {start : Workspace}

theorem target_normal (leads : Leads start events root stack target) :
    target = root ∨ ∃ slashes list, Path.Normal target slashes list := by
  cases leads with
  | here => exact .inl rfl
  | step outer descends =>
    obtain ⟨_, _, _, _, name, _, _, _, _, _, _, rfl⟩ := descends
    exact .inr (importTarget_normal _ name)

theorem stack_normal (leads : Leads start events root stack target) :
    ∀ file ∈ stack, file = root ∨ ∃ slashes list, Path.Normal file slashes list := by
  induction leads with
  | here => simp
  | step outer _ ih =>
    exact List.forall_mem_cons.mpr ⟨outer.target_normal, ih⟩

theorem located (leads : Leads start events root stack target) :
    ∀ file ∈ stack, start.location file ∈ start.files.entries.map Prod.fst := by
  induction leads with
  | here => simp
  | step outer descends ih =>
    obtain ⟨_, _, _, _, _, _, _, _, present, _⟩ := descends
    exact List.forall_mem_cons.mpr ⟨FileTree.mem_of_get?_file present, ih⟩

/-- Of a stack without repetitions, all but the root have normal paths, two for each file at most. -/
theorem length_le (leads : Leads start events root stack target) (distinct : stack.Nodup) :
    stack.length ≤ 2 * start.files.entries.length + 1 := by
  -- A path may start with one slash or with two, so a file has two normal paths. The root is left
  -- out because it is normal only where the current directory is absolute.
  have others : ∀ file ∈ stack.erase root, ∃ slashes list, Path.Normal file slashes list := by
    intro file member
    obtain ⟨other, listed⟩ := distinct.mem_erase_iff.mp member
    exact (leads.stack_normal file listed).resolve_left other
  have places : ∀ file ∈ stack.erase root,
      FileTree.location file ∈ start.files.entries.map Prod.fst := by
    intro file member
    have place := leads.located file (List.mem_of_mem_erase member)
    obtain ⟨slashes, list, normal⟩ := others file member
    rwa [Workspace.location, start.rooted_normal normal] at place
  have fewer := FileTree.length_le_of_located (distinct.erase root) others places
  have erased := List.le_length_erase (a := root) (l := stack)
  omega

end Leads

/-- A file that was loaded and has imports was there at the start: no output is such a file. -/
theorem Kept.descends (kept : Kept settings start state) (entered : .entered file state ∈ events)
    (load : SourceFile.load state.workspace file = .ok program)
    (member : .site span name ∈ program.emit) :
    Descends start events state.inProgress file (importTarget file name) := by
  obtain ⟨content, text, found, decoded, parsed⟩ := SourceFile.load_eq_ok load
  have present := (FileTree.locate_eq_ok.mp (FileTree.read_eq_ok.mp found).2).2.2
  have same : state.workspace.rooted file = start.rooted file := by
    unfold Workspace.rooted
    rw [kept.directory]
  rw [same] at present
  -- Either the content is from the start, or the build wrote it and it has no import to follow.
  rcases kept.files _ content present with earlier | inert
  · exact ⟨state, content, program, span, name, entered, rfl, found, earlier, load, member, rfl⟩
  · exact absurd member ((inert text decoded).not_site parsed span name)

/-- Every compilation was entered along such imports. -/
def LedEntries (start : Workspace) (all : List Event) (root : String) (events : List Event) : Prop :=
  ∀ target state, .entered target state ∈ events → Leads start all root state.inProgress target

theorem LedEntries.append (first : LedEntries start all root events)
    (second : LedEntries start all root events') :
    LedEntries start all root (events ++ events') := by
  intro target state member
  rcases List.mem_append.mp member with member | member
  · exact first target state member
  · exact second target state member

theorem LedEntries.entered (leads : Leads start all root before.inProgress path)
    (entries : LedEntries start all root events) :
    LedEntries start all root (.entered path before :: events) := by
  intro target state member
  rcases List.mem_cons.mp member with same | member
  · cases same
    exact leads
  · exact entries target state member

theorem Leads.sites (leads : Leads start all root before.inProgress file)
    (kept : Kept settings start before) (entered : .entered file before ∈ all)
    (load : SourceFile.load before.workspace file = .ok program) :
    ∀ span name, .site span name ∈ program.emit →
      Leads start all root (before.enter file).inProgress (importTarget file name) := by
  intro span name member
  exact .step leads (kept.descends entered load member)

mutual

/-- A compilation and all inside it are entered along imports of files from the start. -/
theorem Compiles.led : Compiles settings depth path before events result after →
    Kept settings start before → events ⊆ all → Leads start all root before.inProgress path →
    LedEntries start all root events
  | .exhausted, _, _, leads => .entered leads nofun
  | .cached _ _, _, _, leads => .entered leads nofun
  | .cyclic _ _ _, _, _, leads => .entered leads nofun
  | .unloaded _ _ _, _, _, leads => .entered leads nofun
  | .unfilled _ _ load filled, kept, within, leads => by
    obtain ⟨entered, within⟩ := List.cons_subset.mp within
    have inner := filled.led (kept.congr rfl rfl rfl) within (leads.sites kept entered load)
    exact .entered leads inner
  | .unwritten _ _ load filled _, kept, within, leads => by
    obtain ⟨entered, within⟩ := List.cons_subset.mp within
    have inner := filled.led (kept.congr rfl rfl rfl) within (leads.sites kept entered load)
    exact .entered leads inner
  | .written _ _ load filled _ _, kept, within, leads => by
    obtain ⟨entered, within⟩ := List.cons_subset.mp within
    have inner := filled.led (kept.congr rfl rfl rfl) (List.append_subset.mp within).1
      (leads.sites kept entered load)
    exact .entered leads (inner.append nofun)

theorem Fills.led : Fills settings depth file fragments before events result after →
    Kept settings start before → events ⊆ all →
    (∀ span name, .site span name ∈ fragments →
      Leads start all root before.inProgress (importTarget file name)) →
    LedEntries start all root events
  | .nil, _, _, _ => nofun
  | .text following, kept, within, leads =>
    following.led kept within fun span name member =>
      leads span name (List.mem_cons_of_mem _ member)
  | .failed imported, kept, within, leads =>
    imported.led kept within (leads _ _ List.mem_cons_self)
  | .site imported following, kept, within, leads => by
    obtain ⟨first, rest⟩ := List.append_subset.mp within
    have inner := imported.led kept first (leads _ _ List.mem_cons_self)
    refine inner.append (following.led (imported.inert kept).1 rest ?_)
    -- The import has taken its file off the stack again.
    intro span name member
    rw [imported.effect.inProgress]
    exact leads span name (List.mem_cons_of_mem _ member)

end

section
variable {failure : Failure}

private theorem ofFile_ne (fault : FileFault) : Failure.ofFile fault ≠ .nestedTooDeep := by
  cases fault <;> exact nofun

private theorem read_ne (read : SourceFile.read workspace path = .error failure) :
    failure ≠ .nestedTooDeep := by
  unfold SourceFile.read at read
  split at read
  · cases read
    exact nofun
  · cases read
    exact nofun
  · cases read
    exact nofun
  · split at read
    · cases read
    · cases read
      exact nofun

private theorem load_ne (load : SourceFile.load workspace path = .error failure) :
    failure ≠ .nestedTooDeep := by
  unfold SourceFile.load at load
  rcases read : SourceFile.read workspace path with fault | text
  · rw [read] at load
    cases load
    exact read_ne read
  · rw [read] at load
    rcases parsed : Program.ofSource text (some path) with fault | program
    · simp only [bind, Except.bind, parsed] at load
      cases load
      cases fault <;> exact nofun
    · simp only [bind, Except.bind, parsed] at load
      cases load

private theorem readOutput_ne (run : Yields (readOutput settings path) before result after) :
    result ≠ .error .nestedTooDeep := by
  have run := run.rest .get
  split at run
  · rcases yields_bind.mp run with ⟨_, _, _, run⟩ | ⟨_, warned, _⟩
    · rw [(yields_pure.mp run).1]
      exact nofun
    · cases (yields_modify.mp warned).1
  · rw [(yields_throw.mp run).1]
    exact fun same => ofFile_ne _ (Except.error.inj same)
  · split at run
    · rw [(yields_pure.mp run).1]
      exact nofun
    · rw [(yields_throw.mp run).1]
      exact nofun

private theorem writeOutput_ne
    (run : Yields (writeOutput output code) before (.error failure) after) :
    failure ≠ .nestedTooDeep := by
  have run := run.rest .get
  have run := run.rest .set
  split at run
  · rw [Except.error.inj (yields_throw.mp run).1]
    exact ofFile_ne _
  · split at run
    · rw [Except.error.inj (yields_throw.mp run).1]
      exact ofFile_ne _
    · cases (yields_set.mp run).1

private theorem importFailure_eq (same : importFailure file span path failure = .nestedTooDeep) :
    failure = .nestedTooDeep := by
  unfold importFailure at same
  split at same
  · cases same
  · split at same
    · cases same
    · exact same

end

/-- Calls are nested so much deeper than at some state. -/
def Deep (events : List Event) (before : BuildState) (depth : Nat) : Prop :=
  ∃ target state, .entered target state ∈ events ∧
    state.inProgress.length = before.inProgress.length + depth

theorem Deep.enter (deep : Deep events (before.enter path) depth)
    (within : events ⊆ events') : Deep events' before (depth + 1) := by
  obtain ⟨target, state, member, length⟩ := deep
  refine ⟨target, state, within member, ?_⟩
  rw [length, BuildState.enter, List.length_cons]
  omega

mutual

/-- A compilation that runs out of depth has nested that deep. -/
theorem Compiles.deep : Compiles settings depth path before events result after →
    result = .error .nestedTooDeep → Deep events before depth
  | .exhausted, _ => ⟨path, before, List.mem_cons_self, rfl⟩
  | .cached _ read, same => absurd same (readOutput_ne read)
  | .cyclic _ _ _, same => nomatch same
  | .unloaded _ _ load, same => absurd (Except.error.inj same) (load_ne load)
  | .unfilled _ _ _ filled, same => (filled.deep same).enter (List.subset_cons_self _ _)
  | .unwritten _ _ _ _ refused, same => absurd (Except.error.inj same) (writeOutput_ne refused)
  | .written _ _ _ _ _ _, same => nomatch same

theorem Fills.deep : Fills settings depth file fragments before events result after →
    result = .error .nestedTooDeep → Deep events before depth
  | .nil, same => nomatch same
  | .text following, same => following.deep (map_eq_error same)
  | .failed imported, same =>
    imported.deep (congrArg Except.error (importFailure_eq (Except.error.inj same)))
  | .site imported following, same => by
    obtain ⟨target, state, member, length⟩ := following.deep (map_eq_error same)
    rw [imported.effect.inProgress] at length
    exact ⟨target, state, List.mem_append_right _ member, length⟩

end

mutual

/-- A compilation that does not run out of depth goes the same way with more of it. -/
theorem Compiles.deepen : Compiles settings depth path before events result after →
    result ≠ .error .nestedTooDeep → Compiles settings (depth + 1) path before events result after
  | .exhausted, enough => absurd rfl enough
  | .cached known read, _ => .cached known read
  | .cyclic unknown started warned, _ => .cyclic unknown started warned
  | .unloaded unknown unstarted load, _ => .unloaded unknown unstarted load
  | .unfilled unknown unstarted load filled, enough =>
    .unfilled unknown unstarted load (filled.deepen enough)
  | .unwritten unknown unstarted load filled refused, _ =>
    .unwritten unknown unstarted load (filled.deepen nofun) refused
  | .written unknown unstarted load filled wrote told, _ =>
    .written unknown unstarted load (filled.deepen nofun) wrote told

theorem Fills.deepen : Fills settings depth file fragments before events result after →
    result ≠ .error .nestedTooDeep →
    Fills settings (depth + 1) file fragments before events result after
  | .nil, _ => .nil
  | .text following, enough =>
    .text (following.deepen fun same => enough (congrArg (Except.map _) same))
  | .failed imported, enough => by
    refine .failed (imported.deepen ?_)
    intro same
    cases same
    exact enough rfl
  | .site imported following, enough =>
    .site (imported.deepen nofun)
      (following.deepen fun same => enough (congrArg (Except.map _) same))

end

theorem Compiles.deepen_le (called : Compiles settings depth path before events result after)
    (enough : result ≠ .error .nestedTooDeep) (more : depth ≤ depth') :
    Compiles settings depth' path before events result after := by
  induction more with
  | refl => exact called
  | step _ ih => exact ih.deepen enough

/-- The calls inside a call that starts with nothing in progress nest less deep than the limit. -/
theorem Compiles.length_lt
    (called : Compiles settings depth path before events result after) (orderly : Orderly before)
    (idle : before.inProgress = []) (kept : Kept settings before.workspace before)
    (entered : .entered target state ∈ events) :
    Leads before.workspace events path state.inProgress target ∧
      state.inProgress.Nodup ∧ state.inProgress.length < depthLimit before.workspace.files := by
  have root : Leads before.workspace events path before.inProgress path := idle ▸ .here
  have leads := called.led kept (List.Subset.refl events) root target state entered
  have distinct := ((called.orderly orderly).2 target state entered).progressing
  have fewer := leads.length_le distinct
  refine ⟨leads, distinct, ?_⟩
  unfold depthLimit
  omega

/-- After any calls, and whatever the files import, a call comes to an end: beyond the limit, the
bound on nesting changes neither what happens nor what comes out. Whenever another call is entered
inside it, the files in progress differ from each other; each was loaded, has the import that leads
on, and was there when the call started. What the call writes has no import in it when it is read as
source text. -/
theorem Session.compile_terminates (session : Session settings events disturbances state)
    (undisturbed : Undisturbed settings disturbances) (path : String) :
    ∃ events' result after,
      Yields (Build.compile settings path) state result after ∧ result ≠ .error .nestedTooDeep ∧
      (∀ depth, depthLimit state.workspace.files ≤ depth →
        Compiles settings depth (state.workspace.absolute path) state events' result after ∧
        Yields (compileWithin settings depth (state.workspace.absolute path)) state result after) ∧
      (∀ target entered, .entered target entered ∈ events' →
        Leads state.workspace events' (state.workspace.absolute path) entered.inProgress target ∧
        entered.inProgress.Nodup ∧
        entered.inProgress.length < depthLimit state.workspace.files ∧
        (Path.isAbsolute state.workspace.directory = true →
          ∀ file ∈ target :: entered.inProgress, ∃ slashes list, Path.Normal file slashes list)) ∧
      ∀ file code, (file, code) ∈ finished events' →
        ∀ text, text = code ∨ Text.ofFile code.toUTF8 = .ok text →
          ∀ name program, Program.ofSource text name = .ok program →
            ∀ span target, .site span target ∉ program.emit := by
  have run := yields_run (Build.compile settings path) state
  obtain ⟨events', called⟩ := compileWithin_traced (run.rest .get)
  have kept := (session.kept undisturbed).1
  have nested : ∀ target entered, .entered target entered ∈ events' →
      Leads state.workspace events' (state.workspace.absolute path) entered.inProgress target ∧
        entered.inProgress.Nodup ∧
        entered.inProgress.length < depthLimit state.workspace.files :=
    fun target entered member => called.length_lt session.orderly.1 session.idle kept member
  have enough : ((Build.compile settings path).run.run state).1 ≠ .error .nestedTooDeep := by
    -- Running out of depth takes a call at the limit, and no call nests that deep.
    intro exhausted
    obtain ⟨target, entered, member, length⟩ := called.deep exhausted
    have short := (nested target entered member).2.2
    rw [length, session.idle, List.length_nil, Nat.zero_add] at short
    exact Nat.lt_irrefl _ short
  refine ⟨events', _, _, run, enough, ?_, ?_, ?_⟩
  · intro depth more
    have deeper := called.deepen_le enough more
    exact ⟨deeper, deeper.yields⟩
  · intro target entered member
    obtain ⟨leads, distinct, short⟩ := nested target entered member
    refine ⟨leads, distinct, short, ?_⟩
    intro rooted
    have root := Path.absolute_normal rooted path
    refine List.forall_mem_cons.mpr ⟨leads.target_normal.elim (· ▸ root) id, ?_⟩
    intro file listed
    exact (leads.stack_normal file listed).elim (· ▸ root) id
  · intro file code member text read name program parsed
    have inert := (called.inert kept).2.1 file code member
    rcases read with rfl | read
    · exact inert.not_site parsed
    · exact (inert.ofFile read).not_site parsed

/-- Two files that import each other, by paths that are not normal. -/
def circleProject : Workspace :=
  ⟨⟨[(["a.as"], .file "import(\"./b.as\");".toUTF8),
    (["b.as"], .file "import(\"b/../a.as\");".toUTF8)]⟩, "/", "", ""⟩

private theorem load_first :
    SourceFile.load circleProject "/a.as" = .ok (circleProgram "./b.as" 17) := by
  have text : SourceFile.read circleProject "/a.as" = .ok "import(\"./b.as\");" := by
    decide +kernel
  exact load_circle text (by decide +kernel)

private theorem load_second :
    SourceFile.load circleProject "/b.as" = .ok (circleProgram "b/../a.as" 20) := by
  have text : SourceFile.read circleProject "/b.as" = .ok "import(\"b/../a.as\");" := by
    decide +kernel
  exact load_circle text (by decide +kernel)

private theorem circle_imports : Imports circleProject "/a.as" "/b.as" ∧
    Imports circleProject "/b.as" "/a.as" := by
  have targets : importTarget "/a.as" "./b.as" = "/b.as" ∧
      importTarget "/b.as" "b/../a.as" = "/a.as" := ⟨rfl, rfl⟩
  exact ⟨⟨_, _, "./b.as", load_first, List.mem_cons_self, targets.1.symm⟩,
    ⟨_, _, "b/../a.as", load_second, List.mem_cons_self, targets.2.symm⟩⟩

/-- Six files in progress are more than the two files can make, so no more are ever needed. -/
theorem Session.compile_terminates_circle :
    (Imports circleProject "/a.as" "/b.as" ∧ Imports circleProject "/b.as" "/a.as") ∧
    (Session singleSettings [] [] (.fresh circleProject) ∧ Undisturbed singleSettings []) ∧
    ∃ result after,
      Yields (Build.compile singleSettings "a.as") (.fresh circleProject) result after ∧
      result ≠ .error .nestedTooDeep ∧
      ∀ depth, 6 ≤ depth →
        Yields (compileWithin singleSettings depth "/a.as") (.fresh circleProject) result after := by
  have session : Session singleSettings [] [] (.fresh circleProject) := .start circleProject
  have undisturbed : Undisturbed singleSettings [] := nofun
  obtain ⟨_, result, after, run, enough, deeper, _⟩ :=
    compile_terminates session undisturbed "a.as"
  refine ⟨circle_imports, ⟨session, undisturbed⟩, result, after, run, enough, ?_⟩
  intro depth more
  exact (deeper depth more).2

end ScriptKit.Build
