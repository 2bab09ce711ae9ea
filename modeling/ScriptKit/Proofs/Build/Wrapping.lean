import ScriptKit.Proofs.Build.Isolation
import ScriptKit.Proofs.Program.ImportSites

/-!
How the failure of an import is told. A compilation that fails goes down a chain of imports to a file
that cannot be loaded, and on the way back every file of the chain puts its own import before the
message. A file that is not there is told of as such only at the import that names it.
-/
namespace ScriptKit

namespace Path

private theorem normalizeChars_ne_nil (path : List Char) : normalizeChars path ≠ [] := by
  unfold normalizeChars
  dsimp only
  split
  · simp
  · rename_i nonempty
    exact fun empty => nonempty (List.isEmpty_iff.mpr empty)

private theorem absolute_ne_empty (base path : String) : absolute base path ≠ "" := by
  intro empty
  have chars := congrArg String.toList empty
  rw [absolute, normalize, String.toList_ofList] at chars
  exact normalizeChars_ne_nil _ chars

end Path

namespace Build

/-- An import: the file it stands in, its place there, and the path it names. -/
structure Link where
  file : String
  span : Span
  path : String

namespace Link

/-- The error at an import that fails for another error. -/
def report (link : Link) (error : Error) : Error :=
  ⟨.importing, .importFailed link.path error.message, some link.span, some link.file⟩

/-- The error at an import of a file that is not there. -/
def notFound (link : Link) : Error :=
  ⟨.importing, .importFileNotFound link.path, some link.span, some link.file⟩

def place (link : Link) : String :=
  "Error in '" ++ link.file ++ "' (Line: " ++ toString link.span.first.line ++ ", Column: " ++
    toString link.span.first.column ++ "):\n"

/-- What an import puts before the message of the error it fails for. -/
def heading (link : Link) : String :=
  link.place ++ "Error compiling import '" ++ link.path ++ "': "

/-- How a failure looks at an import. -/
def failure (link : Link) (cause : Failure) : Failure :=
  importFailure link.file link.span link.path cause

theorem location_report (link : Link) (named : link.file ≠ "") (error : Error) :
    (link.report error).location = link.place := by
  have kept : (some link.file).filter (fun name => !name.isEmpty) = some link.file := by
    simp [Option.filter, named]
  unfold Error.location report place
  dsimp only
  rw [kept]
  simp only [toString]

theorem message_report (link : Link) (named : link.file ≠ "") (error : Error) :
    (link.report error).message = link.heading ++ error.message := by
  have cause : (link.report error).cause.message =
      "Error compiling import '" ++ link.path ++ "': " ++ error.message := rfl
  rw [Error.message, location_report link named, cause, heading]
  generalize link.place = place
  simp only [String.append_assoc]

/-- Every link puts its own heading before the message. -/
theorem message_foldr (links : List Link) (named : ∀ link ∈ links, link.file ≠ "") (error : Error) :
    (links.foldr report error).message = links.foldr (fun link text => link.heading ++ text)
      error.message := by
  induction links with
  | nil => rfl
  | cons link links ih =>
    obtain ⟨first, others⟩ := List.forall_mem_cons.mp named
    rw [List.foldr_cons, message_report link first, ih others, List.foldr_cons]

theorem failure_foldr (links : List Link) (error : Error) :
    links.foldr failure (.reported error) = .reported (links.foldr report error) := by
  induction links with
  | nil => rfl
  | cons link links ih =>
    rw [List.foldr_cons, ih]
    rfl

/-- A missing file is told of by the import that names it. -/
theorem failure_foldr_missing (links : List Link) (link : Link) (missing : String) :
    (links ++ [link]).foldr failure (.missingSource missing) =
      .reported (links.foldr report link.notFound) := by
  rw [List.foldr_append, ← failure_foldr]
  rfl

theorem failure_foldr_exhausted (links : List Link) :
    links.foldr failure .nestedTooDeep = .nestedTooDeep := by
  induction links with
  | nil => rfl
  | cons link links ih =>
    rw [List.foldr_cons, ih]
    rfl

theorem failure_present (link : Link) (cause : Failure) :
    (link.failure cause).isMissingFile = false := by
  unfold failure importFailure
  split
  · rfl
  · rename_i present
    cases cause with
    | reported error => rfl
    | _ => simpa using present

end Link

/-- The file is to be compiled and cannot be loaded. -/
structure Unloadable (state : BuildState) (path : String) (failure : Failure) : Prop where
  unknown : path ∉ state.compiled
  unstarted : path ∉ state.inProgress
  load : SourceFile.load state.workspace path = .error failure

/-- `ImportChain settings depth path before links depth' last reached`: compiling the file comes, along
a chain of imports, to compiling the last one, in the state `reached`. The imports before those of the
chain have succeeded. -/
inductive ImportChain (settings : BuildSettings) : Nat → String → BuildState → List Link →
    Nat → String → BuildState → Prop where
  | here : ImportChain settings depth path before [] depth path before
  | imported (unknown : path ∉ before.compiled) (unstarted : path ∉ before.inProgress)
      (load : SourceFile.load before.workspace path = .ok program)
      (cut : program.emit = earlier ++ .site span name :: later)
      (filled : Fills settings depth path earlier (before.enter path) events (.ok code) middle)
      (deeper : ImportChain settings depth (importTarget path name) middle links depth' last reached) :
      ImportChain settings (depth + 1) path before (⟨path, span, name⟩ :: links) depth' last reached

theorem Fills.stopped {failure : Failure}
    (imported : Compiles settings depth (importTarget file path) middle events' (.error failure) after)
    (filled : Fills settings depth file earlier before events (.ok code) middle) :
    ∃ events, Fills settings depth file (earlier ++ .site span path :: later) before events
      (.error (importFailure file span path failure)) after := by
  induction earlier generalizing before events code with
  | nil =>
    cases filled
    exact ⟨_, .failed imported⟩
  | cons fragment earlier ih =>
    generalize same : Except.ok code = result at filled
    cases filled with
    | text following =>
      obtain ⟨found, rfl, _⟩ := map_eq_ok same.symm
      obtain ⟨events, stopped⟩ := ih following
      exact ⟨events, .text stopped⟩
    | failed _ => cases same
    | site first following =>
      obtain ⟨found, rfl, _⟩ := map_eq_ok same.symm
      obtain ⟨events, stopped⟩ := ih following
      exact ⟨_, .site first stopped⟩

/-- Where filling failed. -/
theorem Fills.failing {failure : Failure}
    (filled : Fills settings depth file fragments before events (.error failure) after) :
    ∃ earlier span path later events' code middle events'' cause,
      fragments = earlier ++ .site span path :: later ∧
      Fills settings depth file earlier before events' (.ok code) middle ∧
      Compiles settings depth (importTarget file path) middle events'' (.error cause) after ∧
      failure = importFailure file span path cause := by
  induction fragments generalizing before events failure with
  | nil => cases filled
  | cons fragment fragments ih =>
    generalize same : Except.error failure = result at filled
    cases filled with
    | text following =>
      have failed := map_eq_error same.symm
      subst failed
      obtain ⟨earlier, span, path, later, events', _, middle, _, cause, rfl, filled, imported, told⟩ :=
        ih following
      exact ⟨_ :: earlier, span, path, later, events', _, middle, _, cause, rfl, .text filled,
        imported, told⟩
    | failed imported =>
      cases same
      exact ⟨[], _, _, fragments, [], "", before, _, _, rfl, .nil, imported, rfl⟩
    | site first following =>
      have failed := map_eq_error same.symm
      subst failed
      obtain ⟨earlier, span, path, later, events', _, middle, _, cause, rfl, filled, imported, told⟩ :=
        ih following
      exact ⟨_ :: earlier, span, path, later, _, _, middle, _, cause, rfl, .site first filled,
        imported, told⟩

namespace ImportChain

theorem trans (outer : ImportChain settings depth path before links depth' file middle)
    (inner : ImportChain settings depth' file middle links' depth'' last reached) :
    ImportChain settings depth path before (links ++ links') depth'' last reached := by
  induction outer with
  | here => exact inner
  | imported unknown unstarted load cut filled _ ih =>
    exact .imported unknown unstarted load cut filled (ih inner)

theorem named (chain : ImportChain settings depth path before links depth' last reached)
    (start : path ≠ "") : ∀ link ∈ links, link.file ≠ "" := by
  induction chain with
  | here => exact List.forall_mem_nil _
  | imported _ _ _ _ _ _ ih =>
    exact List.forall_mem_cons.mpr ⟨start, ih (Path.absolute_ne_empty _ _)⟩

/-- The links are imports of programs that were loaded. -/
theorem imports (chain : ImportChain settings depth path before links depth' last reached) :
    ∀ link ∈ links, ∃ workspace program, SourceFile.load workspace link.file = .ok program ∧
      program.Part (.statement (.importFile link.span link.path)) := by
  induction chain with
  | here => exact List.forall_mem_nil _
  | imported _ _ load cut _ _ ih =>
    refine List.forall_mem_cons.mpr ⟨⟨_, _, load, Program.mem_emit_site.mp ?_⟩, ih⟩
    rw [cut]
    exact List.mem_append_right _ List.mem_cons_self

/-- A failure at the end of a chain goes through all its links. -/
theorem compiles {failure : Failure}
    (chain : ImportChain settings depth path before links depth' last reached)
    (failed : Compiles settings depth' last reached events (.error failure) after) :
    ∃ events after, Compiles settings depth path before events
      (.error (links.foldr Link.failure failure)) after := by
  induction chain with
  | here => exact ⟨events, after, failed⟩
  | imported unknown unstarted load cut filled _ ih =>
    obtain ⟨_, _, imported⟩ := ih failed
    obtain ⟨_, stopped⟩ := Fills.stopped imported filled
    rw [← cut] at stopped
    exact ⟨_, _, .unfilled unknown unstarted load stopped⟩

end ImportChain

/-- As long as outputs can be stored, a compilation that fails does so for a file that cannot be
loaded, unless the bound on nesting is too low for the files. -/
theorem Compiles.failing {failure : Failure}
    (failed : Compiles settings depth path before events (.error failure) after)
    (storable : Storable settings start roots) (underway : Underway settings start roots before)
    (sought : Sought settings start roots path) :
    failure = .nestedTooDeep ∨ ∃ links depth' last reached cause,
      ImportChain settings depth path before links depth' last reached ∧
        Unloadable reached last cause ∧ failure = links.foldr Link.failure cause := by
  induction depth generalizing path before events failure after with
  | zero =>
    cases failed
    exact .inl rfl
  | succ depth ih =>
    cases failed with
    | cached known read =>
      obtain ⟨_, impossible⟩ := underway.legible.read known read
      cases impossible
    | unloaded unknown unstarted load =>
      exact .inr ⟨[], _, _, _, _, .here, ⟨unknown, unstarted, load⟩, rfl⟩
    | unfilled unknown unstarted load filled =>
      obtain ⟨earlier, span, name, later, _, _, _, _, cause, cut, begun, imported, rfl⟩ :=
        filled.failing
      have within : ∀ place path', .site place path' ∈ earlier ++ .site span name :: later →
          Sought settings start roots (importTarget path path') := by
        intro place path' member
        rw [← cut] at member
        exact .imported sought underway.reached load member rfl
      have target := within span name (List.mem_append_right _ List.mem_cons_self)
      obtain ⟨middle, _⟩ := begun.underway storable underway.enter fun place path' member =>
        within place path' (List.mem_append_left _ member)
      rcases ih imported middle target with
        rfl | ⟨links, depth', last, reached, cause, chain, unloadable, rfl⟩
      · exact .inl rfl
      · exact .inr ⟨_, depth', last, reached, cause,
          .imported unknown unstarted load cut begun chain, unloadable, rfl⟩
    | unwritten unknown unstarted load filled refused =>
      obtain ⟨middle, _⟩ := filled.underway storable underway.enter fun span name member =>
        .imported sought underway.reached load member rfl
      exact absurd refused (storable.not_refused underway middle sought load filled)

theorem Unloadable.compiles {failure : Failure} (unloadable : Unloadable state path failure) :
    Compiles settings (depth + 1) path state [.entered path state] (.error failure) state :=
  .unloaded unloadable.unknown unloadable.unstarted unloadable.load

namespace Session

/-- A chain of imports does not use up the bound on nesting. -/
theorem chain_depth (session : Session settings events disturbances state)
    (undisturbed : Undisturbed settings disturbances)
    (chain : ImportChain settings (depthLimit state.workspace.files) (state.workspace.absolute path)
      state links depth last reached) : ∃ fewer, depth = fewer + 1 := by
  cases depth with
  | succ fewer => exact ⟨fewer, rfl⟩
  | zero =>
    obtain ⟨_, _, called⟩ := chain.compiles .exhausted
    rw [Link.failure_foldr_exhausted] at called
    exact absurd rfl (session.compile_ne undisturbed (called.called rfl))

/-- If the file at the end of a chain of imports cannot be loaded, all compilations on the way fail. -/
theorem chain_fails (session : Session settings events disturbances state)
    (undisturbed : Undisturbed settings disturbances)
    (outer : ImportChain settings (depthLimit state.workspace.files) (state.workspace.absolute path)
      state links depth file middle)
    (inner : ImportChain settings depth file middle links' depth' last reached)
    (unloadable : Unloadable reached last cause) :
    (∃ after, Yields (Build.compile settings path) state
      (.error ((links ++ links').foldr Link.failure cause)) after) ∧
    ∃ after, Yields (compileWithin settings depth file) middle
      (.error (links'.foldr Link.failure cause)) after := by
  obtain ⟨fewer, rfl⟩ := session.chain_depth undisturbed (outer.trans inner)
  obtain ⟨_, _, nested⟩ := inner.compiles unloadable.compiles
  obtain ⟨_, _, called⟩ := (outer.trans inner).compiles unloadable.compiles
  exact ⟨⟨_, called.called rfl⟩, _, nested.yields⟩

end Session

/-- What a call tells of a file at the end of a chain of imports, seen from a file on the chain: the
imports `outer` lead there from the file that was called for, and `inner` from there to the last one. -/
structure Tells (settings : BuildSettings) (state : BuildState) (path : String) (outer : List Link)
    (depth : Nat) (file : String) (middle : BuildState) (inner : List Link) (last : String)
    (reached : BuildState) : Prop where
  imports : ∀ link ∈ outer ++ inner, ∃ workspace program,
    SourceFile.load workspace link.file = .ok program ∧
      program.Part (.statement (.importFile link.span link.path))
  /-- An error of the last file is wrapped at every import, and each file fails with what the next one
  fails with. -/
  wrapped : ∀ error, Unloadable reached last (.reported error) →
    (∃ after, Yields (compile settings path) state
      (.error (.reported ((outer ++ inner).foldr Link.report error))) after) ∧
    (∃ after, Yields (compileWithin settings depth file) middle
      (.error (.reported (inner.foldr Link.report error))) after) ∧
    (inner.foldr Link.report error).message =
      inner.foldr (fun link text => link.heading ++ text) error.message
  /-- If the last file is not there, that is the error of the import that names it. -/
  notFound : ∀ above link, inner = above ++ [link] → Unloadable reached last (.missingSource last) →
    (∃ after, Yields (compile settings path) state
      (.error (.reported ((outer ++ above).foldr Link.report link.notFound))) after) ∧
    ∃ after, Yields (compileWithin settings depth file) middle
      (.error (.reported (above.foldr Link.report link.notFound))) after

/-- After any calls and as long as outputs can be stored, a call fails exactly along the chains of
imports that end at a file that cannot be loaded, with the failure wrapped once at every import. A
missing file is the failure of the call only if it is the file that was called for. -/
theorem Session.compile_wraps (session : Session settings events disturbances state)
    (undisturbed : Undisturbed settings disturbances)
    (storable : Storable settings state.workspace [state.workspace.absolute path]) :
    (∀ outer depth file middle inner depth' last reached,
      ImportChain settings (depthLimit state.workspace.files) (state.workspace.absolute path) state
        outer depth file middle →
      ImportChain settings depth file middle inner depth' last reached →
      Tells settings state path outer depth file middle inner last reached) ∧
    ∀ failure after, Yields (Build.compile settings path) state (.error failure) after →
      (∃ links depth last reached cause,
        ImportChain settings (depthLimit state.workspace.files) (state.workspace.absolute path) state
          links depth last reached ∧
        Unloadable reached last cause ∧ failure = links.foldr Link.failure cause) ∧
      (failure.isMissingFile = true → failure = .missingSource (state.workspace.absolute path) ∧
        ∃ place, state.workspace.read (state.workspace.absolute path) =
          .error (.failed .notFound place)) := by
  constructor
  · intro outer depth file middle inner depth' last reached above below
    have named := (above.trans below).named (Path.absolute_ne_empty _ _)
    refine ⟨(above.trans below).imports, ?_, ?_⟩
    · intro error unloadable
      obtain ⟨called, nested⟩ := session.chain_fails undisturbed above below unloadable
      rw [Link.failure_foldr] at called nested
      exact ⟨called, nested, Link.message_foldr inner (List.forall_mem_append.mp named).2 error⟩
    · rintro links link rfl unloadable
      obtain ⟨called, nested⟩ := session.chain_fails undisturbed above below unloadable
      rw [← List.append_assoc, Link.failure_foldr_missing] at called
      rw [Link.failure_foldr_missing] at nested
      exact ⟨called, nested⟩
  · intro failure after run
    obtain ⟨_, called⟩ := compileWithin_traced (run.rest .get)
    have underway : Underway settings state.workspace [state.workspace.absolute path] state :=
      ⟨(session.kept undisturbed).1, session.legible undisturbed, .unchanged⟩
    rcases called.failing storable underway (.root List.mem_cons_self) with
      rfl | ⟨links, depth, last, reached, cause, chain, unloadable, rfl⟩
    · exact absurd rfl (session.compile_ne undisturbed run)
    · refine ⟨⟨links, depth, last, reached, cause, chain, unloadable, rfl⟩, ?_⟩
      intro missing
      cases chain with
      | here => exact SourceFile.load_isMissing unloadable.load missing
      | imported _ _ _ _ _ _ =>
        rw [List.foldr_cons, Link.failure_present] at missing
        cases missing

/-- Two files in a chain, and a last one that is no program and has braces in its name. -/
def braceProject : Workspace :=
  flatProject [("a.as", "import(\"b.as\");"), ("b.as", "import(\"\x7bc\x7d.as\");"),
    ("\x7bc\x7d.as", "@")]

private theorem load_braces : SourceFile.load braceProject "/a.as" = .ok (circleProgram "b.as" 15) ∧
    SourceFile.load braceProject "/b.as" = .ok (circleProgram "\x7bc\x7d.as" 17) ∧
    SourceFile.load braceProject "/\x7bc\x7d.as" = .error (.reported
      ⟨.lexing, .invalidCharacter "@", some ⟨⟨1, 1⟩, ⟨1, 2⟩⟩, some "/\x7bc\x7d.as"⟩) := by
  have failed : (SourceFile.load braceProject "/\x7bc\x7d.as").map (fun _ => ()) =
      .error (.reported
        ⟨.lexing, .invalidCharacter "@", some ⟨⟨1, 1⟩, ⟨1, 2⟩⟩, some "/\x7bc\x7d.as"⟩) := by
    decide +kernel
  have first : FileTree.Shallow "/a.as" "a.as" := by decide
  have second : FileTree.Shallow "/b.as" "b.as" := by decide
  exact ⟨load_circle (SourceFile.read_shallow first rfl (by decide)) (by decide +kernel),
    load_circle (SourceFile.read_shallow second rfl (by decide)) (by decide +kernel),
    map_eq_error failed⟩

private theorem braces_boxed :
    Boxed Session.singleSettings braceProject "out" ["/a.as", "/b.as", "/\x7bc\x7d.as"] := by
  obtain ⟨load, load', failed⟩ := load_braces
  refine ⟨flat_free (by decide), by decide, ?_, ?_⟩
  · simp only [List.forall_mem_cons]
    exact ⟨Boxed.closed_of_load load (by decide), Boxed.closed_of_load load' (by decide),
      Boxed.closed_of_error failed, List.forall_mem_nil _⟩
  · simp only [List.forall_mem_cons]
    exact ⟨.inr ⟨"a.as", "a.js", by decide⟩, .inr ⟨"b.as", "b.js", by decide⟩,
      .inr ⟨"\x7bc\x7d.as", "\x7bc\x7d.js", by decide⟩, List.forall_mem_nil _⟩

/-- The error of the last file is told of by both imports, with the name of the file as it stands. -/
theorem Session.compile_wraps_braces :
    (Session singleSettings [] [] (.fresh braceProject) ∧ Undisturbed singleSettings []) ∧
    Storable singleSettings braceProject [braceProject.absolute "a.as"] ∧
    ∃ error after, Yields (Build.compile singleSettings "a.as") (.fresh braceProject)
        (.error (.reported error)) after ∧
      error.message = "Error in '/a.as' (Line: 1, Column: 1):\nError compiling import 'b.as': " ++
        "Error in '/b.as' (Line: 1, Column: 1):\nError compiling import '\x7bc\x7d.as': " ++
        "Error in '/\x7bc\x7d.as' (Line: 1, Column: 1):\nSyntax Error: Invalid character '@' found." := by
  have session : Session singleSettings [] [] (.fresh braceProject) := .start braceProject
  have undisturbed : Undisturbed singleSettings [] := fun _ _ member => absurd member List.not_mem_nil
  have absolute : braceProject.absolute "a.as" = "/a.as" := by decide
  have storable : Storable singleSettings braceProject [braceProject.absolute "a.as"] :=
    braces_boxed.storable (by simp [absolute])
  refine ⟨⟨session, undisturbed⟩, storable, ?_⟩
  obtain ⟨load, load', failed⟩ := load_braces
  have chain : ImportChain singleSettings 8 "/a.as" (.fresh braceProject)
      [⟨"/a.as", ⟨⟨1, 1⟩, ⟨1, 15⟩⟩, "b.as"⟩, ⟨"/b.as", ⟨⟨1, 1⟩, ⟨1, 17⟩⟩, "\x7bc\x7d.as"⟩] 6
      "/\x7bc\x7d.as" (((BuildState.fresh braceProject).enter "/a.as").enter "/b.as") :=
    .imported List.not_mem_nil List.not_mem_nil load (List.nil_append _).symm .nil
      (.imported List.not_mem_nil (by decide) load' (List.nil_append _).symm .nil .here)
  have tells := (session.compile_wraps undisturbed storable).1 _ _ _ _ _ _ _ _ .here chain
  obtain ⟨⟨after, called⟩, _, message⟩ := tells.wrapped _ ⟨List.not_mem_nil, by decide, failed⟩
  refine ⟨_, after, called, message.trans ?_⟩
  decide +kernel

end Build
end ScriptKit
