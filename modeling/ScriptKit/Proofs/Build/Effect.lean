import ScriptKit.Proofs.Build.Trace
import ScriptKit.Proofs.FileTree.Growth

/-!
What building changes. However a compilation ends, the files in progress are what they were, the
files that finished are compiled in that order, and of the files that were there only their outputs
have changed.
-/
namespace ScriptKit

namespace Workspace

/-- The location that a path names, seen from the current directory. -/
def location (workspace : Workspace) (path : String) : Location :=
  FileTree.location (workspace.rooted path)

structure Grows (changing : Location → Prop) (before after : Workspace) : Prop where
  files : before.files.Grows changing after.files
  directory : after.directory = before.directory

namespace Grows

variable {changing : Location → Prop} {before middle after : Workspace}

theorem of_files (files : after.files = before.files)
    (directory : after.directory = before.directory) :
    Grows changing before after :=
  ⟨files.symm ▸ .refl before.files, directory⟩

theorem refl (workspace : Workspace) : Grows changing workspace workspace :=
  of_files rfl rfl

theorem trans (first : Grows changing before middle) (second : Grows changing middle after) :
    Grows changing before after :=
  ⟨first.files.trans second.files, second.directory.trans first.directory⟩

theorem weaken {wider : Location → Prop} (grows : Grows changing before after)
    (includes : ∀ place, changing place → wider place) : Grows wider before after :=
  ⟨grows.files.weaken includes, grows.directory⟩

theorem rooted (grows : Grows changing before after) (path : String) :
    after.rooted path = before.rooted path := by
  unfold Workspace.rooted
  rw [grows.directory]

theorem location (grows : Grows changing before after) (path : String) :
    after.location path = before.location path :=
  congrArg FileTree.location (grows.rooted path)

theorem read (grows : Grows changing before after) (found : before.read path = .ok content)
    (still : ¬ changing (before.location path)) : after.read path = .ok content := by
  obtain ⟨null, located⟩ := FileTree.read_eq_ok.mp found
  have present := (FileTree.locate_eq_ok.mp located).2.2
  unfold Workspace.read
  rw [grows.rooted path]
  exact FileTree.read_eq_ok.mpr ⟨null, grows.files.locate located (grows.files.kept still present)⟩

theorem readable (grows : Grows changing before after) (found : before.read path = .ok content) :
    ∃ content', after.read path = .ok content' := by
  obtain ⟨null, located⟩ := FileTree.read_eq_ok.mp found
  obtain ⟨content', now⟩ := grows.files.file (FileTree.locate_eq_ok.mp located).2.2
  refine ⟨content', ?_⟩
  unfold Workspace.read
  rw [grows.rooted path]
  exact FileTree.read_eq_ok.mpr ⟨null, grows.files.locate located now⟩

end Grows

theorem makeDirectories_grows (workspace : Workspace) (path : String) :
    Grows (fun _ => False) workspace (workspace.makeDirectories path).2 :=
  ⟨FileTree.makeDirectories_grows workspace.files (workspace.rooted path), rfl⟩

theorem write_eq_ok {before after : Workspace} (written : before.write path text = .ok after) :
    Grows (· = before.location path) before after ∧ after.read path = .ok text.toUTF8 := by
  obtain ⟨files, stored, same⟩ := bind_eq_ok.mp written
  cases same
  obtain ⟨null, grows, located⟩ := FileTree.write_eq_ok stored
  exact ⟨⟨grows, rfl⟩, FileTree.read_eq_ok.mpr ⟨null, located⟩⟩

/-- The text is put into a file, below directories that are made if need be. -/
structure Stores (before : Workspace) (path text : String) (after : Workspace) : Prop where
  made : (before.makeDirectories (Path.directory path)).1 = .ok ()
  written : (before.makeDirectories (Path.directory path)).2.write path text = .ok after

namespace Stores

variable {before after : Workspace}

theorem grows (stores : Stores before path text after) :
    Grows (· = before.location path) before after := by
  have made := before.makeDirectories_grows (Path.directory path)
  have written := (write_eq_ok stores.written).1
  rw [made.location path] at written
  exact (made.weaken (fun _ => False.elim)).trans written

theorem read (stores : Stores before path text after) : after.read path = .ok text.toUTF8 :=
  (write_eq_ok stores.written).2

end Stores

/-- The text cannot be stored: a directory cannot be made, or then the file cannot be written. -/
def Refuses (before : Workspace) (path text : String) (fault : FileFault) : Prop :=
  (before.makeDirectories (Path.directory path)).1 = .error fault ∨
    (before.makeDirectories (Path.directory path)).1 = .ok () ∧
      (before.makeDirectories (Path.directory path)).2.write path text = .error fault

theorem Refuses.not_stores {before after : Workspace} (refuses : Refuses before path text fault)
    (stores : Stores before path text after) : False := by
  rcases refuses with unmade | ⟨_, unwritten⟩
  · cases unmade.symm.trans stores.made
  · cases unwritten.symm.trans stores.written

end Workspace

namespace Build

/-- Writing an output either stores it, or fails and leaves no more than directories behind. -/
theorem writeOutput_cases (run : Yields (writeOutput output code) before result after) :
    (∃ workspace, before.workspace.Stores output code workspace ∧ result = .ok () ∧
      after = { before with workspace := workspace }) ∨
    ∃ fault, before.workspace.Refuses output code fault ∧ result = .error (.ofFile fault) ∧
      after = { before with
        workspace := (before.workspace.makeDirectories (Path.directory output)).2 } := by
  have run := run.rest .get
  rcases made : before.workspace.makeDirectories (Path.directory output) with ⟨fault | _, workspace⟩
  · rw [made] at run
    obtain ⟨rfl, rfl⟩ := yields_throw.mp (run.rest .set)
    exact .inr ⟨fault, .inl (congrArg Prod.fst made), rfl, rfl⟩
  · rw [made] at run
    have run := run.rest .set
    rcases written : workspace.write output code with fault | stored
    · rw [written] at run
      obtain ⟨rfl, rfl⟩ := yields_throw.mp run
      exact .inr ⟨fault, .inr ⟨congrArg Prod.fst made, by rw [made, written]⟩, rfl, rfl⟩
    · rw [written] at run
      obtain ⟨rfl, rfl⟩ := yields_set.mp run
      exact .inl ⟨stored, ⟨congrArg Prod.fst made, by rw [made, written]⟩, rfl, rfl⟩

theorem writeOutput_ok (wrote : Yields (writeOutput output code) before (.ok ()) after) :
    ∃ workspace, before.workspace.Stores output code workspace ∧
      after = { before with workspace := workspace } := by
  rcases writeOutput_cases wrote with ⟨workspace, stores, _, rfl⟩ | ⟨_, _, impossible, _⟩
  · exact ⟨workspace, stores, rfl⟩
  · cases impossible

theorem writeOutput_error {before : BuildState} {failure : Failure}
    (refused : Yields (writeOutput output code) before (.error failure) after) :
    ∃ fault, failure = .ofFile fault ∧ before.workspace.Refuses output code fault := by
  rcases writeOutput_cases refused with ⟨_, _, impossible, _⟩ | ⟨fault, refuses, same, _⟩
  · cases impossible
  · exact ⟨fault, Except.error.inj same, refuses⟩

theorem writeOutput_refused {failure : Failure}
    (refused : Yields (writeOutput output code) before (.error failure) after) :
    ∃ reached, (∀ workspace, ¬ before.workspace.Stores output code workspace) ∧
      before.workspace.Grows (fun _ => False) reached ∧
      after = { before with workspace := reached } := by
  rcases writeOutput_cases refused with ⟨_, _, impossible, _⟩ | ⟨_, refuses, _, rfl⟩
  · cases impossible
  · exact ⟨_, fun _ => refuses.not_stores, before.workspace.makeDirectories_grows _, rfl⟩

/-- A state that differs in its console only. -/
structure Shows (before after : BuildState) : Prop where
  files : after.workspace.files = before.workspace.files
  directory : after.workspace.directory = before.workspace.directory
  compiled : after.compiled = before.compiled
  inProgress : after.inProgress = before.inProgress

theorem Shows.refl (state : BuildState) : Shows state state := ⟨rfl, rfl, rfl, rfl⟩

theorem warn_shows (run : Yields (warn text) before result after) : Shows before after := by
  obtain ⟨_, rfl⟩ := yields_modify.mp run
  exact ⟨rfl, rfl, rfl, rfl⟩

theorem info_shows (run : Yields (info settings text) before result after) : Shows before after := by
  obtain ⟨_, rfl⟩ := yields_info.mp run
  cases settings.quiet <;> exact ⟨rfl, rfl, rfl, rfl⟩

theorem readOutput_shows (run : Yields (readOutput settings path) before result after) :
    Shows before after := by
  have run := run.rest .get
  split at run
  · rcases yields_bind.mp run with ⟨_, middle, warned, run⟩ | ⟨_, warned, _⟩
    · obtain ⟨_, rfl⟩ := yields_pure.mp run
      exact warn_shows warned
    · exact warn_shows warned
  · obtain ⟨_, rfl⟩ := yields_throw.mp run
    exact .refl after
  · split at run
    · obtain ⟨_, rfl⟩ := yields_pure.mp run
      exact .refl after
    · obtain ⟨_, rfl⟩ := yields_throw.mp run
      exact .refl after

/-- The files that finished, in order, with their texts. -/
def finished : List Event → List (String × String)
  | [] => []
  | .entered _ _ :: events => finished events
  | .finished path code :: events => (path, code) :: finished events

theorem finished_append (events events' : List Event) :
    finished (events ++ events') = finished events ++ finished events' := by
  induction events with
  | nil => rfl
  | cons event events ih => cases event <;> simp [finished, ih]

/-- The places of the outputs of the files that finished. -/
def Outputs (settings : BuildSettings) (workspace : Workspace) (events : List Event)
    (place : Location) : Prop :=
  ∃ path ∈ (finished events).map Prod.fst, workspace.location (settings.outputPath path) = place

/-- What a compilation with these events does to the state. -/
structure Effect (settings : BuildSettings) (before : BuildState) (events : List Event)
    (after : BuildState) : Prop where
  inProgress : after.inProgress = before.inProgress
  compiled : after.compiled = before.compiled ++ (finished events).map Prod.fst
  workspace : before.workspace.Grows (Outputs settings before.workspace events) after.workspace

namespace Effect

theorem of_shows (shows' : Shows before after) : Effect settings before [] after :=
  ⟨shows'.inProgress, by simp [finished, shows'.compiled],
    .of_files shows'.files shows'.directory⟩

theorem entered (effect : Effect settings before events after) :
    Effect settings before (.entered path state :: events) after :=
  ⟨effect.inProgress, effect.compiled, effect.workspace⟩

theorem trans (first : Effect settings before events middle)
    (second : Effect settings middle events' after) :
    Effect settings before (events ++ events') after := by
  refine ⟨second.inProgress.trans first.inProgress, ?_, ?_⟩
  · rw [second.compiled, first.compiled, finished_append, List.map_append, List.append_assoc]
  · refine (first.workspace.weaken ?_).trans (second.workspace.weaken ?_)
    · intro place ⟨path, member, same⟩
      refine ⟨path, ?_, same⟩
      rw [finished_append, List.map_append]
      exact List.mem_append_left _ member
    · intro place ⟨path, member, same⟩
      refine ⟨path, ?_, (first.workspace.location _).symm.trans same⟩
      rw [finished_append, List.map_append]
      exact List.mem_append_right _ member

theorem mem_compiled (effect : Effect settings before events after) :
    ∀ path ∈ before.compiled, path ∈ after.compiled := by
  rw [effect.compiled]
  exact fun _ => List.mem_append_left _

/-- What happens while a file is in progress, seen from outside. -/
theorem within (effect : Effect settings (before.enter path) events after) :
    Effect settings before events after.leave := by
  refine ⟨?_, effect.compiled, effect.workspace⟩
  rw [BuildState.leave, effect.inProgress]
  rfl

theorem of_grows {before : BuildState} {reached : Workspace}
    (grows : before.workspace.Grows (fun _ => False) reached) :
    Effect settings before [] { before with workspace := reached } :=
  ⟨rfl, by simp [finished], grows.weaken fun _ => False.elim⟩

theorem stored {before : BuildState} {reached : Workspace}
    (stores : before.workspace.Stores (settings.outputPath path) code reached) :
    Effect settings before [.finished path code]
      (BuildState.record { before with workspace := reached } path) := by
  refine ⟨rfl, rfl, stores.grows.weaken ?_⟩
  intro place same
  exact ⟨path, List.mem_singleton.mpr rfl, same.symm⟩

end Effect

mutual

theorem Compiles.effect : Compiles settings depth path before events result after →
    Effect settings before events after
  | .exhausted => (Effect.of_shows (.refl _)).entered
  | .cached _ read => (Effect.of_shows (readOutput_shows read)).entered
  | .cyclic _ _ warned => (Effect.of_shows (warn_shows warned)).entered
  | .unloaded _ _ _ => (Effect.of_shows (.refl _)).entered
  | .unfilled _ _ _ filled => filled.effect.within.entered
  | .unwritten _ _ _ filled refused => by
    obtain ⟨_, _, grows, rfl⟩ := writeOutput_refused refused
    have whole := filled.effect.trans (.of_grows grows)
    rw [List.append_nil] at whole
    exact whole.within.entered
  | .written _ _ _ filled wrote told => by
    obtain ⟨_, stores, rfl⟩ := writeOutput_ok wrote
    have whole := (filled.effect.trans (.stored stores)).within.trans (.of_shows (info_shows told))
    rw [List.append_nil] at whole
    exact whole.entered

theorem Fills.effect : Fills settings depth file fragments before events result after →
    Effect settings before events after
  | .nil => Effect.of_shows (.refl _)
  | .text following => following.effect
  | .failed imported => imported.effect
  | .site imported following => imported.effect.trans following.effect

end

end Build
end ScriptKit
