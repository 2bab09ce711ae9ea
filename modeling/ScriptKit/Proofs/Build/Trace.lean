import ScriptKit.Build
import ScriptKit.Proofs.Yields

/-!
What happens while a file is compiled, as rules. They tell apart the ways a compilation can go, and
record in order which compilations were entered, in which state, and which of them finished with
which text.
-/
namespace ScriptKit

namespace BuildState

def enter (state : BuildState) (path : String) : BuildState :=
  { state with inProgress := path :: state.inProgress }

/-- Leaves the innermost file. -/
def leave (state : BuildState) : BuildState :=
  { state with inProgress := state.inProgress.drop 1 }

def record (state : BuildState) (path : String) : BuildState :=
  { state with compiled := state.compiled ++ [path] }

end BuildState

namespace Build

/-- What an import puts in its place. -/
def spliced (target code : String) : String := if code = "" then emptyMark target else code

inductive Event where
  | entered (path : String) (state : BuildState)
  | finished (path code : String)

mutual

/-- `Compiles settings depth path before events result after`: with imports nested at most so deep,
compiling the file goes through the events, gives the result and ends in the state `after`. -/
inductive Compiles (settings : BuildSettings) : Nat → String → BuildState → List Event →
    Except Failure String → BuildState → Prop where
  | exhausted : Compiles settings 0 path before [.entered path before] (.error .nestedTooDeep) before
  | cached (known : path ∈ before.compiled)
      (read : Yields (readOutput settings path) before result after) :
      Compiles settings (depth + 1) path before [.entered path before] result after
  | cyclic (unknown : path ∉ before.compiled) (started : path ∈ before.inProgress)
      (warned : Yields (warn s!"Cyclic import detected (skipping inline): {path}") before (.ok ())
        after) :
      Compiles settings (depth + 1) path before [.entered path before]
        (.ok (cycleMark settings path)) after
  | unloaded {failure : Failure} (unknown : path ∉ before.compiled)
      (unstarted : path ∉ before.inProgress)
      (load : SourceFile.load before.workspace path = .error failure) :
      Compiles settings (depth + 1) path before [.entered path before] (.error failure) before
  | unfilled {failure : Failure} (unknown : path ∉ before.compiled)
      (unstarted : path ∉ before.inProgress)
      (load : SourceFile.load before.workspace path = .ok program)
      (filled : Fills settings depth path program.emit (before.enter path) events (.error failure)
        after) :
      Compiles settings (depth + 1) path before (.entered path before :: events) (.error failure)
        after.leave
  | unwritten {failure : Failure} (unknown : path ∉ before.compiled)
      (unstarted : path ∉ before.inProgress)
      (load : SourceFile.load before.workspace path = .ok program)
      (filled : Fills settings depth path program.emit (before.enter path) events (.ok code) middle)
      (refused : Yields (writeOutput (settings.outputPath path) code) middle (.error failure)
        after) :
      Compiles settings (depth + 1) path before (.entered path before :: events) (.error failure)
        after.leave
  | written (unknown : path ∉ before.compiled) (unstarted : path ∉ before.inProgress)
      (load : SourceFile.load before.workspace path = .ok program)
      (filled : Fills settings depth path program.emit (before.enter path) events (.ok code) middle)
      (wrote : Yields (writeOutput (settings.outputPath path) code) middle (.ok ()) after)
      (told : Yields (info settings s!"Compiled: {path} -> {settings.outputPath path}")
        (after.record path).leave (.ok ()) final) :
      Compiles settings (depth + 1) path before
        (.entered path before :: (events ++ [.finished path code])) (.ok code) final

/-- The same for filling the sites of a file. -/
inductive Fills (settings : BuildSettings) : Nat → String → List Fragment → BuildState →
    List Event → Except Failure String → BuildState → Prop where
  | nil : Fills settings depth file [] before [] (.ok "") before
  | text (following : Fills settings depth file fragments before events result after) :
      Fills settings depth file (.text code :: fragments) before events
        (result.map (code ++ ·)) after
  | failed {failure : Failure}
      (imported : Compiles settings depth (importTarget file path) before events (.error failure)
        after) :
      Fills settings depth file (.site span path :: fragments) before events
        (.error (importFailure file span path failure)) after
  | site
      (imported : Compiles settings depth (importTarget file path) before events (.ok code) middle)
      (following : Fills settings depth file fragments middle events' result after) :
      Fills settings depth file (.site span path :: fragments) before (events ++ events')
        (result.map (spliced (importTarget file path) code ++ ·)) after

end

/-- If compilations at a depth follow the rules, so does filling sites with them. -/
theorem fill_traced (traced : ∀ path before result after,
      Yields (compileWithin settings depth path) before result after →
        ∃ events, Compiles settings depth path before events result after)
    (run : Yields (fill (compileWithin settings depth) file fragments) before result after) :
    ∃ events, Fills settings depth file fragments before events result after := by
  induction fragments generalizing before result after with
  | nil =>
    obtain ⟨rfl, rfl⟩ := yields_pure.mp run
    exact ⟨[], .nil⟩
  | cons fragment fragments ih =>
    cases fragment with
    | text code =>
      rcases yields_bind.mp run with ⟨following, middle, rest, run⟩ | ⟨failure, rest, rfl⟩
      · obtain ⟨rfl, rfl⟩ := yields_pure.mp run
        obtain ⟨events, filled⟩ := ih rest
        exact ⟨events, .text filled⟩
      · obtain ⟨events, filled⟩ := ih rest
        exact ⟨events, .text filled⟩
    | site span path =>
      rcases yields_bind.mp run with ⟨code, middle, first, run⟩ | ⟨failure, first, rfl⟩
      · rcases yields_tryCatch.mp first with ⟨_, imported, same⟩ | ⟨_, _, _, impossible⟩
        · cases same
          obtain ⟨events, imported⟩ := traced _ _ _ _ imported
          rcases yields_bind.mp run with ⟨following, last, rest, run⟩ | ⟨failure, rest, rfl⟩
          · obtain ⟨rfl, rfl⟩ := yields_pure.mp run
            obtain ⟨events', filled⟩ := ih rest
            exact ⟨events ++ events', .site imported filled⟩
          · obtain ⟨events', filled⟩ := ih rest
            exact ⟨events ++ events', .site imported filled⟩
        · obtain ⟨impossible, _⟩ := yields_throw.mp impossible
          cases impossible
      · rcases yields_tryCatch.mp first with ⟨_, _, impossible⟩ | ⟨_, _, imported, thrown⟩
        · cases impossible
        · obtain ⟨same, rfl⟩ := yields_throw.mp thrown
          cases same
          obtain ⟨events, imported⟩ := traced _ _ _ _ imported
          exact ⟨events, .failed imported⟩

private theorem yields_during {action : BuildAction α} :
    Yields (during path action) before result final ↔
      ∃ after, Yields action (before.enter path) result after ∧ final = after.leave := by
  have computed : (during path action).run.run before =
      ((action.run.run (before.enter path)).1, (action.run.run (before.enter path)).2.leave) := rfl
  rw [yields_of_run computed]
  constructor
  · rintro ⟨rfl, rfl⟩
    exact ⟨_, yields_run action _, rfl⟩
  · rintro ⟨after, run, rfl⟩
    obtain ⟨rfl, rfl⟩ := run.unique (yields_run action _)
    exact ⟨rfl, rfl⟩

theorem yields_info : Yields (info settings text) before result after ↔ result = .ok () ∧
    after = if settings.quiet then before else before.mapWorkspace (·.printLine text) := by
  cases quiet : settings.quiet with
  | true =>
    rw [info, if_pos quiet]
    exact yields_pure
  | false =>
    rw [info, if_neg (by simp [quiet])]
    exact yields_modify

section
variable {before : BuildState} {failure : Failure} {compile : String → BuildAction String}

private theorem compileFresh_unloaded
    (load : SourceFile.load before.workspace path = .error failure) :
    Yields (compileFresh settings compile path) before (.error failure) before := by
  refine (yields_during.mpr ⟨before.enter path, ?_, rfl⟩).bind_error
  refine Yields.get.bind ?_
  rw [show (before.enter path).workspace = before.workspace from rfl, load]
  exact .throw

theorem compileFresh_unfilled (load : SourceFile.load before.workspace path = .ok program)
    (filled : Yields (fill compile path program.emit) (before.enter path) (.error failure) middle) :
    Yields (compileFresh settings compile path) before (.error failure) middle.leave := by
  refine (yields_during.mpr ⟨middle, ?_, rfl⟩).bind_error
  refine Yields.get.bind ?_
  rw [show (before.enter path).workspace = before.workspace from rfl, load]
  exact filled.bind_error

private theorem compileFresh_unwritten (load : SourceFile.load before.workspace path = .ok program)
    (filled : Yields (fill compile path program.emit) (before.enter path) (.ok code) middle)
    (refused : Yields (writeOutput (settings.outputPath path) code) middle (.error failure) after) :
    Yields (compileFresh settings compile path) before (.error failure) after.leave := by
  refine (yields_during.mpr ⟨after, ?_, rfl⟩).bind_error
  refine Yields.get.bind ?_
  rw [show (before.enter path).workspace = before.workspace from rfl, load]
  exact filled.bind refused.bind_error

private theorem compileFresh_written (load : SourceFile.load before.workspace path = .ok program)
    (filled : Yields (fill compile path program.emit) (before.enter path) (.ok code) middle)
    (wrote : Yields (writeOutput (settings.outputPath path) code) middle (.ok ()) after)
    (told : Yields (info settings s!"Compiled: {path} -> {settings.outputPath path}")
      (after.record path).leave (.ok ()) final) :
    Yields (compileFresh settings compile path) before (.ok code) final := by
  refine (yields_during.mpr ⟨after.record path, ?_, rfl⟩).bind
    (told.bind .pure)
  refine Yields.get.bind ?_
  rw [show (before.enter path).workspace = before.workspace from rfl, load]
  exact filled.bind (wrote.bind (Yields.modify.bind .pure))

end

private theorem compileFresh_traced (traced : ∀ path before result after,
      Yields (compileWithin settings depth path) before result after →
        ∃ events, Compiles settings depth path before events result after)
    (unknown : path ∉ before.compiled) (unstarted : path ∉ before.inProgress)
    (run : Yields (compileFresh settings (compileWithin settings depth) path) before result final) :
    ∃ events, Compiles settings (depth + 1) path before events result final := by
  rcases load : SourceFile.load before.workspace path with failure | program
  · obtain ⟨rfl, rfl⟩ := run.unique (compileFresh_unloaded load)
    exact ⟨_, .unloaded unknown unstarted load⟩
  rcases filled : (fill (compileWithin settings depth) path program.emit).run.run
    (before.enter path) with ⟨failure | code, middle⟩
  · obtain ⟨rfl, rfl⟩ := run.unique (compileFresh_unfilled load filled)
    obtain ⟨events, filled⟩ := fill_traced traced filled
    exact ⟨_, .unfilled unknown unstarted load filled⟩
  rcases wrote : (writeOutput (settings.outputPath path) code).run.run middle with
    ⟨failure | _, after⟩
  · obtain ⟨rfl, rfl⟩ := run.unique (compileFresh_unwritten load filled wrote)
    obtain ⟨events, filled⟩ := fill_traced traced filled
    exact ⟨_, .unwritten unknown unstarted load filled wrote⟩
  obtain ⟨last, told⟩ : ∃ last, Yields
      (info settings s!"Compiled: {path} -> {settings.outputPath path}")
      (after.record path).leave (.ok ()) last := ⟨_, yields_info.mpr ⟨rfl, rfl⟩⟩
  obtain ⟨rfl, rfl⟩ := run.unique (compileFresh_written load filled wrote told)
  obtain ⟨events, filled⟩ := fill_traced traced filled
  exact ⟨_, .written unknown unstarted load filled wrote told⟩

/-- Every compilation follows the rules. -/
theorem compileWithin_traced (run : Yields (compileWithin settings depth path) before result after) :
    ∃ events, Compiles settings depth path before events result after := by
  induction depth generalizing path before result after with
  | zero =>
    obtain ⟨rfl, rfl⟩ := yields_throw.mp run
    exact ⟨_, .exhausted⟩
  | succ depth ih =>
    have run := run.rest .get
    by_cases known : path ∈ before.compiled
    · rw [if_pos (by simpa using known)] at run
      exact ⟨_, .cached known run⟩
    rw [if_neg (by simpa using known)] at run
    by_cases started : path ∈ before.inProgress
    · rw [if_pos (by simpa using started)] at run
      rcases yields_bind.mp run with ⟨_, middle, warned, run⟩ | ⟨_, impossible, _⟩
      · obtain ⟨rfl, rfl⟩ := yields_pure.mp run
        exact ⟨_, .cyclic known started warned⟩
      · cases (yields_modify.mp impossible).1
    rw [if_neg (by simpa using started)] at run
    exact compileFresh_traced (fun _ _ _ _ => ih) known started run

private theorem compileWithin_fresh {before : BuildState} (unknown : path ∉ before.compiled)
    (unstarted : path ∉ before.inProgress)
    (run : Yields (compileFresh settings (compileWithin settings depth) path) before result after) :
    Yields (compileWithin settings (depth + 1) path) before result after := by
  refine Yields.get.bind ?_
  rw [if_neg (by simpa using unknown), if_neg (by simpa using unstarted)]
  exact run

mutual

/-- What follows the rules is a compilation. -/
theorem Compiles.yields : Compiles settings depth path before events result after →
    Yields (compileWithin settings depth path) before result after
  | .exhausted => .throw
  | .cached known read => by
    refine Yields.get.bind ?_
    rw [if_pos (by simpa using known)]
    exact read
  | .cyclic unknown started warned => by
    refine Yields.get.bind ?_
    rw [if_neg (by simpa using unknown), if_pos (by simpa using started)]
    exact warned.bind .pure
  | .unloaded unknown unstarted load =>
    compileWithin_fresh unknown unstarted (compileFresh_unloaded load)
  | .unfilled unknown unstarted load filled =>
    compileWithin_fresh unknown unstarted (compileFresh_unfilled load filled.yields)
  | .unwritten unknown unstarted load filled refused =>
    compileWithin_fresh unknown unstarted (compileFresh_unwritten load filled.yields refused)
  | .written unknown unstarted load filled wrote told =>
    compileWithin_fresh unknown unstarted (compileFresh_written load filled.yields wrote told)

theorem Fills.yields : Fills settings depth file fragments before events result after →
    Yields (fill (compileWithin settings depth) file fragments) before result after
  | .nil => .pure
  | .text following => following.yields.mapped _
  | .failed imported => by
    apply Yields.bind_error
    exact imported.yields.caught .throw
  | .site imported following => imported.yields.passed.bind (following.yields.mapped _)

end

/-- A call compiles the file at the normal form of its path. -/
theorem Compiles.called {before : BuildState} (absolute : before.workspace.absolute path = full)
    (compiles : Compiles settings (depthLimit before.workspace.files) full before events result
      after) : Yields (compile settings path) before result after := by
  subst absolute
  exact Yields.get.bind compiles.yields

end Build
end ScriptKit
