import ScriptKit.Proofs.Build.Session
import ScriptKit.Proofs.Program.Inert

/-!
What a build writes imports nothing. The text of every file that finished is inert, so the files of a
workspace are those that were there before, or inert; and what is read from an output is inert again.
-/
namespace ScriptKit

/-- Everything emitted for a source file by itself is inert. -/
theorem SourceFile.load_inert (loaded : load workspace path = .ok program)
    (member : .text code ∈ program.emit) : Inert code := by
  obtain ⟨_, _, _, _, parsed⟩ := load_eq_ok loaded
  exact .of_mute (Program.quiet_emit parsed _ member) (load_plain loaded _ member)

/-- Where two paths lead to one place, they read one file. -/
theorem Workspace.read_unique {workspace : Workspace} (found : workspace.read path = .ok content)
    (found' : workspace.read other = .ok content')
    (same : workspace.location path = workspace.location other) : content = content' := by
  have present := (FileTree.locate_eq_ok.mp (FileTree.read_eq_ok.mp found).2).2.2
  have present' := (FileTree.locate_eq_ok.mp (FileTree.read_eq_ok.mp found').2).2.2
  rw [← Workspace.location, same, Workspace.location, present'] at present
  injection present with same
  injection same with same
  exact same.symm

namespace Build

/-- A content that no program with an import has. -/
def InertContent (content : ByteArray) : Prop :=
  ∀ text, Text.ofFile content = .ok text → Inert text

private theorem inertContent_toUTF8 (inert : Inert code) : InertContent code.toUTF8 :=
  fun _ read => inert.ofFile read

/-- Writing an inert text makes no other files, however it ends. -/
theorem writeOutput_arises (run : Yields (writeOutput output code) before result after)
    (inert : Inert code) :
    before.workspace.files.Arises InertContent after.workspace.files := by
  have furnished : before.workspace.files.Arises InertContent
      (before.workspace.makeDirectories (Path.directory output)).2.files :=
    FileTree.makeDirectories_arises _ _
  rcases writeOutput_cases run with ⟨_, stores, _, rfl⟩ | ⟨_, _, _, rfl⟩
  · obtain ⟨files, wrote, same⟩ := bind_eq_ok.mp stores.written
    cases same
    exact furnished.trans (FileTree.write_arises wrote (inertContent_toUTF8 inert))
  · exact furnished

/-- A state that a build has reached from some workspace: every compiled file has an inert output, and
every other file is as it was or inert too. -/
structure Kept (settings : BuildSettings) (start : Workspace) (state : BuildState) : Prop where
  outputs : ∀ path ∈ state.compiled, ∃ content,
    state.workspace.read (settings.outputPath path) = .ok content ∧ InertContent content
  files : start.files.Arises InertContent state.workspace.files
  directory : state.workspace.directory = start.directory

namespace Kept

variable {start : Workspace} {before after : BuildState} {failure : Failure}

theorem congr (kept : Kept settings start before)
    (files : after.workspace.files = before.workspace.files)
    (directory : after.workspace.directory = before.workspace.directory)
    (compiled : after.compiled = before.compiled) : Kept settings start after := by
  have grows : before.workspace.Grows (fun _ => False) after.workspace := .of_files files directory
  refine ⟨?_, files ▸ kept.files, directory.trans kept.directory⟩
  intro path member
  rw [compiled] at member
  obtain ⟨content, found, inert⟩ := kept.outputs path member
  exact ⟨content, grows.read found not_false, inert⟩

theorem shown (kept : Kept settings start before) (shown : Shows before after) :
    Kept settings start after :=
  kept.congr shown.files shown.directory shown.compiled

theorem unwritten (kept : Kept settings start before) (inert : Inert code)
    (refused : Yields (writeOutput output code) before (.error failure) after) :
    Kept settings start after := by
  have arises := writeOutput_arises refused inert
  obtain ⟨_, _, grows, rfl⟩ := writeOutput_refused refused
  refine ⟨?_, kept.files.trans arises, grows.directory.trans kept.directory⟩
  intro path member
  obtain ⟨content, found, inert⟩ := kept.outputs path member
  exact ⟨content, grows.read found not_false, inert⟩

theorem written (kept : Kept settings start before) (inert : Inert code)
    (wrote : Yields (writeOutput (settings.outputPath path) code) before (.ok ()) after) :
    Kept settings start (after.record path) := by
  have arises := writeOutput_arises wrote inert
  obtain ⟨_, stores, rfl⟩ := writeOutput_ok wrote
  have grows := stores.grows
  refine ⟨?_, kept.files.trans arises, grows.directory.trans kept.directory⟩
  intro other member
  rcases List.mem_append.mp member with earlier | last
  · obtain ⟨content, found, inert'⟩ := kept.outputs other earlier
    -- Two files may share an output; then the earlier text is gone, and the new one is inert.
    by_cases same : before.workspace.location (settings.outputPath other) =
        before.workspace.location (settings.outputPath path)
    · obtain ⟨content', found'⟩ := grows.readable found
      rw [← grows.location, ← grows.location] at same
      rw [Workspace.read_unique found' stores.read same] at found'
      exact ⟨_, found', inertContent_toUTF8 inert⟩
    · exact ⟨content, grows.read found same, inert'⟩
  · rw [List.mem_singleton.mp last]
    exact ⟨_, stores.read, inertContent_toUTF8 inert⟩

/-- The text of a compiled file is inert. -/
theorem read (kept : Kept settings start before) (known : path ∈ before.compiled)
    (run : Yields (readOutput settings path) before (.ok code) after) : Inert code := by
  obtain ⟨content, found, inert⟩ := kept.outputs path known
  have run := run.rest .get
  rw [found] at run
  dsimp only at run
  cases decoded : Text.ofFile content with
  | error fault =>
    rw [decoded] at run
    cases (yields_throw.mp run).1
  | ok text =>
    rw [decoded] at run
    cases (yields_pure.mp run).1
    exact inert _ decoded

/-- The state as a start of its own. -/
theorem restart (kept : Kept settings start before) : Kept settings before.workspace before :=
  ⟨kept.outputs, .refl _, rfl⟩

end Kept

private theorem inert_cycleMark (settings : BuildSettings) (path : String) :
    Inert (cycleMark settings path) := by
  unfold cycleMark
  rw [String.append_assoc]
  exact .of_comment ⟨_, rfl⟩ _

private theorem inert_spliced (inert : Inert code) (target : String) :
    Inert (spliced target code) := by
  unfold spliced
  split
  · unfold emptyMark
    rw [String.append_assoc]
    exact .of_comment ⟨_, rfl⟩ _
  · exact inert

/-- Every file that finished did so with an inert text. -/
def InertTexts (events : List Event) : Prop :=
  ∀ path code, (path, code) ∈ finished events → Inert code

theorem InertTexts.append (first : InertTexts events) (second : InertTexts events') :
    InertTexts (events ++ events') := by
  intro path code member
  rw [finished_append] at member
  rcases List.mem_append.mp member with member | member
  · exact first path code member
  · exact second path code member

private theorem inertTexts_finished (inert : Inert code) : InertTexts [.finished path code] := by
  intro path' code' member
  cases List.mem_singleton.mp member
  exact inert

mutual

/-- A compilation gives an inert text, if any, and so does every compilation in it. -/
theorem Compiles.inert : Compiles settings depth path before events result after →
    Kept settings start before →
    Kept settings start after ∧ InertTexts events ∧ ∀ code, result = .ok code → Inert code
  | .exhausted, kept => ⟨kept, nofun, nofun⟩
  | .cached known read, kept => by
    refine ⟨kept.shown (readOutput_shows read), nofun, ?_⟩
    rintro code rfl
    exact kept.read known read
  | .cyclic _ _ warned, kept => by
    refine ⟨kept.shown (warn_shows warned), nofun, ?_⟩
    rintro code ⟨⟩
    exact inert_cycleMark settings path
  | .unloaded _ _ _, kept => ⟨kept, nofun, nofun⟩
  | .unfilled _ _ load filled, kept => by
    obtain ⟨reached, texts, _⟩ := filled.inert (kept.congr rfl rfl rfl)
      fun _ => SourceFile.load_inert load
    exact ⟨reached.congr rfl rfl rfl, texts, nofun⟩
  | .unwritten _ _ load filled refused, kept => by
    obtain ⟨reached, texts, inert⟩ := filled.inert (kept.congr rfl rfl rfl)
      fun _ => SourceFile.load_inert load
    exact ⟨(reached.unwritten (inert _ rfl) refused).congr rfl rfl rfl, texts, nofun⟩
  | .written _ _ load filled wrote told, kept => by
    obtain ⟨reached, texts, inert⟩ := filled.inert (kept.congr rfl rfl rfl)
      fun _ => SourceFile.load_inert load
    have shown := info_shows told
    have recorded := reached.written (inert _ rfl) wrote
    refine ⟨recorded.congr shown.files shown.directory shown.compiled, ?_, inert⟩
    exact texts.append (inertTexts_finished (inert _ rfl))

theorem Fills.inert : Fills settings depth file fragments before events result after →
    Kept settings start before → (∀ code, .text code ∈ fragments → Inert code) →
    Kept settings start after ∧ InertTexts events ∧ ∀ code, result = .ok code → Inert code
  | .nil, kept, _ => by
    refine ⟨kept, nofun, ?_⟩
    rintro code ⟨⟩
    exact .of_mute .empty (by decide)
  | .text following, kept, inert => by
    obtain ⟨reached, texts, rest⟩ := following.inert kept fun code member =>
      inert code (List.mem_cons_of_mem _ member)
    refine ⟨reached, texts, ?_⟩
    intro code same
    obtain ⟨text, found, rfl⟩ := map_eq_ok same
    exact (inert _ List.mem_cons_self).append (rest text found)
  | .failed imported, kept, _ => by
    obtain ⟨reached, texts, _⟩ := imported.inert kept
    exact ⟨reached, texts, nofun⟩
  | .site imported following, kept, inert => by
    obtain ⟨middle, texts, first⟩ := imported.inert kept
    obtain ⟨reached, texts', rest⟩ := following.inert middle fun code member =>
      inert code (List.mem_cons_of_mem _ member)
    refine ⟨reached, texts.append texts', ?_⟩
    intro code same
    obtain ⟨text, found, rfl⟩ := map_eq_ok same
    exact (inert_spliced (first _ rfl) _).append (rest text found)

end

/-- As long as nobody else touches an output, all outputs are inert between any two calls. -/
theorem Session.kept (session : Session settings events disturbances state)
    (undisturbed : Undisturbed settings disturbances) :
    Kept settings state.workspace state ∧ InertTexts events := by
  induction session with
  | start workspace => exact ⟨⟨nofun, .refl _, rfl⟩, nofun⟩
  | compile earlier called ih =>
    obtain ⟨kept, texts⟩ := ih undisturbed
    obtain ⟨reached, texts', _⟩ := called.inert kept
    exact ⟨reached.restart, texts.append texts'⟩
  | shown earlier shown ih =>
    obtain ⟨kept, texts⟩ := ih undisturbed
    exact ⟨(kept.shown shown).restart, texts⟩
  | disturbed earlier workspace ih =>
    obtain ⟨kept, texts⟩ := ih fun state workspace member =>
      undisturbed state workspace (List.mem_cons_of_mem _ member)
    refine ⟨⟨?_, .refl _, rfl⟩, texts⟩
    intro path member
    obtain ⟨content, found, inert⟩ := kept.outputs path member
    obtain ⟨same, _⟩ := undisturbed _ workspace List.mem_cons_self path member
    exact ⟨content, same.trans found, inert⟩

end Build
end ScriptKit
