import ScriptKit.Config
import ScriptKit.Proofs.Build.InPlace
import ScriptKit.Proofs.Build.Staleness

/-!
Building in place beside a configuration. A build that returns where the current directory has no
configuration never reads, writes or passes the place of one. So it goes the same way where there is
one: it writes the same files and says the same.
-/
namespace ScriptKit
namespace Workspace

theorem Stores.console {before after : Workspace} (stores : before.Stores path text after) :
    after.output = before.output ∧ after.errors = before.errors := by
  obtain ⟨files, written, same⟩ := bind_eq_ok.mp stores.written
  cases same
  exact ⟨rfl, rfl⟩

/-- Where the configuration in the current directory is. -/
def configPlace (workspace : Workspace) : Location :=
  workspace.location (workspace.absolute configFileName)

private theorem configPlace_congr (directory : one.directory = two.directory) :
    configPlace one = configPlace two := by
  unfold configPlace location rooted absolute
  rw [directory]

private theorem configPlace_eq (rooted : Path.isAbsolute workspace.directory = true) :
    ∃ front, configPlace workspace = front ++ [configFileName] := by
  have named : Path.Name configFileName.toList := by decide
  obtain ⟨_, list, normal⟩ := Path.absolute_name rooted named
  rw [String.ofList_toList] at normal
  rw [configPlace, location, absolute, Workspace.rooted, if_pos (.inr normal.isAbsolute),
    FileTree.location_normal normal, List.map_append]
  exact ⟨_, rfl⟩

/-- A configuration with this content is all that the second workspace has more than the first. -/
structure Configured (content : ByteArray) (bare workspace : Workspace) : Prop where
  directory : workspace.directory = bare.directory
  absent : bare.files.get? bare.configPlace = none
  found : workspace.read (workspace.absolute configFileName) = .ok content
  others : ∀ place, place ≠ bare.configPlace → workspace.files.get? place = bare.files.get? place

/-- What the one has said since it was at its start, the other one has said since its own. -/
structure Echoes (start start' one two : Workspace) : Prop where
  output : ∃ text, one.output = start.output ++ text ∧ two.output = start'.output ++ text
  errors : ∃ text, one.errors = start.errors ++ text ∧ two.errors = start'.errors ++ text

namespace Echoes

theorem refl (start start' : Workspace) : Echoes start start' start start' :=
  ⟨⟨"", by simp⟩, "", by simp⟩

theorem congr (echoes : Echoes start start' one two) (output : one'.output = one.output)
    (output' : two'.output = two.output) (errors : one'.errors = one.errors)
    (errors' : two'.errors = two.errors) : Echoes start start' one' two' := by
  obtain ⟨said, told⟩ := echoes
  exact ⟨by rwa [output, output'], by rwa [errors, errors']⟩

theorem printLine (echoes : Echoes start start' one two) (text : String) :
    Echoes start start' (one.printLine text) (two.printLine text) := by
  obtain ⟨⟨said, same, same'⟩, told⟩ := echoes
  refine ⟨⟨said ++ text ++ "\n", ?_, ?_⟩, told⟩
  · simp only [Workspace.printLine, same, String.append_assoc]
  · simp only [Workspace.printLine, same', String.append_assoc]

theorem printErrorLine (echoes : Echoes start start' one two) (text : String) :
    Echoes start start' (one.printErrorLine text) (two.printErrorLine text) := by
  obtain ⟨said, told, same, same'⟩ := echoes
  refine ⟨said, told ++ text ++ "\n", ?_, ?_⟩
  · simp only [Workspace.printErrorLine, same, String.append_assoc]
  · simp only [Workspace.printErrorLine, same', String.append_assoc]

end Echoes

namespace Configured

variable {bare workspace bare' workspace' : Workspace}

theorem congr (configured : Configured content bare workspace)
    (files : ∀ place, bare'.files.get? place = bare.files.get? place)
    (files' : ∀ place, workspace'.files.get? place = workspace.files.get? place)
    (directory : bare'.directory = bare.directory)
    (directory' : workspace'.directory = workspace.directory) :
    Configured content bare' workspace' := by
  obtain ⟨same, absent, found, others⟩ := configured
  have place : bare'.configPlace = bare.configPlace := configPlace_congr directory
  have read : workspace'.read (workspace'.absolute configFileName) =
      workspace.read (workspace.absolute configFileName) := by
    unfold Workspace.read rooted absolute
    rw [directory']
    exact FileTree.read_congr fun _ _ => files' _
  refine ⟨by rw [directory, directory', same], ?_, read.trans found, fun other different => ?_⟩
  · rw [place, files]
    exact absent
  · rw [files, files']
    exact others other (place ▸ different)

theorem location (configured : Configured content bare workspace) (path : String) :
    workspace.location path = bare.location path := by
  rw [Workspace.location, rooted, configured.directory]
  rfl

theorem configPlace (configured : Configured content bare workspace) :
    workspace.configPlace = bare.configPlace := by
  rw [Workspace.configPlace, absolute, configured.directory]
  exact configured.location _

theorem grows (configured : Configured content bare workspace) :
    bare.Grows (fun _ => False) workspace := by
  refine ⟨fun place entry present => .inl ?_, configured.directory⟩
  rw [configured.others place ?_]
  · exact present
  · intro same
    rw [same, configured.absent] at present
    cases present

/-- Storing aside from the configuration keeps the two apart as they were. -/
theorem stored (configured : Configured content bare workspace)
    (rooted : Path.isAbsolute bare.directory = true)
    (apart : bare.location path ≠ bare.configPlace)
    (opened : ∀ place, bare.Passes path place → bare.files.get? place = some .directory)
    (stores : bare.Stores path text bare') :
    ∃ workspace', workspace.Stores path text workspace' ∧ Configured content bare' workspace' := by
  have rooted' : Path.isAbsolute workspace.directory = true := configured.directory ▸ rooted
  have aside : ¬ bare.Passes path bare.configPlace := by
    intro passes
    have directory := opened _ passes
    rw [configured.absent] at directory
    cases directory
  have kept (place : Location) (passes : bare.Passes path place) :
      workspace.files.get? place = some .directory :=
    configured.grows.files.directory (opened place passes)
  have free : workspace.files.get? (bare.location path) ≠ some .directory := by
    rw [configured.others _ apart]
    intro directory
    have file := stores.get?_location
    rw [stores.grows.files.directory directory] at file
    cases file
  obtain ⟨workspace', stores'⟩ := stores.again rooted configured.directory
    (fun place passes => .inr (kept place passes)) free text
  have place : bare'.configPlace = bare.configPlace := configPlace_congr stores.grows.directory
  refine ⟨workspace', stores', ?_, ?_, ?_, ?_⟩
  · rw [stores'.grows.directory, stores.grows.directory, configured.directory]
  · rw [place, stores.get?_aside rooted apart.symm aside, configured.absent]
  · have found := stores'.grows.read configured.found (by
      rw [configured.location path]
      exact fun same => apart (same.symm.trans configured.configPlace))
    rwa [absolute, stores'.grows.directory]
  · intro other different
    rw [place] at different
    by_cases isOutput : other = bare.location path
    · rw [isOutput, stores.get?_location, ← configured.location, stores'.get?_location]
    by_cases passes : bare.Passes path other
    · rw [stores.get?_passed rooted passes,
        stores'.get?_passed rooted' (configured.grows.passes.mpr passes)]
    · have isOutput' : other ≠ workspace.location path := configured.location path ▸ isOutput
      rw [stores.get?_aside rooted isOutput passes,
        stores'.get?_aside rooted' isOutput' fun again => passes (configured.grows.passes.mp again),
        configured.others other different]

end Configured
end Workspace
namespace Build

/-- No output has the name of a configuration: they end in different letters. -/
theorem mirroredName_ne {settings : BuildSettings}
    (extension : settings.outputExtension = defaultOutputExtension) (name : List Char) :
    String.ofList (settings.mirroredName name) ≠ configFileName := by
  intro same
  have ends := congrArg (List.getLast? ∘ String.toList) same
  have last : defaultOutputExtension.toList.getLast? = some 's' := by decide
  have last' : configFileName.toList.getLast? = some 'n' := by decide
  rw [Function.comp_apply, Function.comp_apply, String.toList_ofList, BuildSettings.mirroredName,
    extension, List.getLast?_append, last, last'] at ends
  cases ends

/-- Two builds in place that are in step, the second one beside a configuration. -/
structure Beside (settings : BuildSettings) (root : List (List Char)) (content : ByteArray)
    (start start' : Workspace) (state state' : BuildState) : Prop where
  rooted : Path.isAbsolute state.workspace.directory = true
  extension : settings.outputExtension = defaultOutputExtension
  inPlace : InPlace settings root state.workspace
  legible : Legible settings state
  configured : state.workspace.Configured content state'.workspace
  echoes : start.Echoes start' state.workspace state'.workspace
  compiled : state'.compiled = state.compiled
  inProgress : state'.inProgress = state.inProgress

namespace Beside

variable {settings : BuildSettings} {root : List (List Char)} {content : ByteArray}
  {start start' : Workspace} {state state' after after' : BuildState}

theorem enter (beside : Beside settings root content start start' state state') :
    Beside settings root content start start' (state.enter path) (state'.enter path) :=
  { beside with inProgress := congrArg (path :: ·) beside.inProgress }

theorem leave (beside : Beside settings root content start start' state state') :
    Beside settings root content start start' state.leave state'.leave :=
  { beside with inProgress := congrArg (List.drop 1) beside.inProgress }

theorem shown (beside : Beside settings root content start start' state state')
    (shown : Shows state after) (shown' : Shows state' after')
    (echoes : start.Echoes start' after.workspace after'.workspace) :
    Beside settings root content start start' after after' where
  rooted := shown.directory ▸ beside.rooted
  extension := beside.extension
  inPlace := beside.inPlace.grows shown.grows
  legible := beside.legible.shown shown
  configured := beside.configured.congr (fun _ => by rw [shown.files]) (fun _ => by rw [shown'.files])
    shown.directory shown'.directory
  echoes := echoes
  compiled := by rw [shown'.compiled, shown.compiled, beside.compiled]
  inProgress := by rw [shown'.inProgress, shown.inProgress, beside.inProgress]

theorem warned (beside : Beside settings root content start start' state state')
    (run : Yields (warn text) state result after) :
    ∃ after', Yields (warn text) state' result after' ∧
      Beside settings root content start start' after after' := by
  obtain ⟨rfl, rfl⟩ := yields_modify.mp run
  have run' : Yields (warn text) state' (.ok ()) _ := .modify
  exact ⟨_, run', beside.shown (warn_shows run) (warn_shows run') (beside.echoes.printErrorLine _)⟩

theorem told (beside : Beside settings root content start start' state state')
    (run : Yields (info settings text) state result after) :
    ∃ after', Yields (info settings text) state' result after' ∧
      Beside settings root content start start' after after' := by
  obtain ⟨rfl, same⟩ := yields_info.mp run
  have run' : Yields (info settings text) state' (.ok ()) _ := yields_info.mpr ⟨rfl, rfl⟩
  refine ⟨_, run', beside.shown (info_shows run) (info_shows run') ?_⟩
  rw [same]
  split
  · exact beside.echoes
  · exact beside.echoes.printLine text

theorem load (beside : Beside settings root content start start' state state')
    (loaded : SourceFile.load state.workspace path = .ok program) :
    SourceFile.load state'.workspace path = .ok program := by
  obtain ⟨_, _, found, _⟩ := SourceFile.load_eq_ok loaded
  rw [← SourceFile.load_congr (found.trans (beside.configured.grows.read found not_false).symm)]
  exact loaded

theorem read (beside : Beside settings root content start start' state state')
    (known : path ∈ state.compiled)
    (run : Yields (readOutput settings path) state result after) :
    after = state ∧ Yields (readOutput settings path) state' result state' := by
  obtain ⟨text, found⟩ := beside.legible path known
  exact readOutput_held found (beside.configured.grows.read found not_false) run

/-- The output of a file that is there stays away from the configuration. -/
theorem stored (beside : Beside settings root content start start' state state')
    (normal : Path.Normal path slashes list) (found : state.workspace.read path = .ok bytes)
    (stores : state.workspace.Stores (settings.outputPath path) code reached) :
    ∃ reached', state'.workspace.Stores (settings.outputPath path) code reached' ∧
      Beside settings root content start start'
        (BuildState.record { state with workspace := reached } path)
        (BuildState.record { state' with workspace := reached' } path) := by
  have apart : state.workspace.location (settings.outputPath path) ≠ state.workspace.configPlace := by
    obtain ⟨front, name, output⟩ := beside.inPlace.location_output normal found
    obtain ⟨front', place⟩ := Workspace.configPlace_eq beside.rooted
    rw [output, place]
    intro same
    exact mirroredName_ne beside.extension name (List.singleton_inj.mp (List.append_inj' same rfl).2)
  obtain ⟨reached', stores', configured⟩ := beside.configured.stored beside.rooted apart
    (fun place passes => beside.inPlace.directory_of_passes normal found passes) stores
  refine ⟨reached', stores', ?_, beside.extension, beside.inPlace.grows stores.grows,
    beside.legible.stored stores, configured, ?_, congrArg (· ++ [path]) beside.compiled,
    beside.inProgress⟩
  · exact stores.grows.directory ▸ beside.rooted
  · exact beside.echoes.congr stores.console.1 stores'.console.1 stores.console.2 stores'.console.2

end Beside

mutual

/-- A compilation that gives a text gives it beside a configuration too. -/
theorem Compiles.beside {state' : BuildState} :
    Compiles settings depth path state events result after → result = .ok code →
    Beside settings root content start start' state state' →
    (∃ slashes list, Path.Normal path slashes list) →
    ∃ events' after', Compiles settings depth path state' events' (.ok code) after' ∧
      Beside settings root content start start' after after'
  | .exhausted, same, _, _ => by cases same
  | .cached known read, same, beside, _ => by
    subst same
    obtain ⟨rfl, read'⟩ := beside.read known read
    exact ⟨_, state', .cached (beside.compiled.symm ▸ known) read', beside⟩
  | .cyclic unknown started warned, same, beside, _ => by
    cases same
    obtain ⟨after', warned', reached⟩ := beside.warned warned
    exact ⟨_, after', .cyclic (beside.compiled.symm ▸ unknown) (beside.inProgress.symm ▸ started)
      warned', reached⟩
  | .unloaded _ _ _, same, _, _ => by cases same
  | .unfilled _ _ _ _, same, _, _ => by cases same
  | .unwritten _ _ _ _ _, same, _, _ => by cases same
  | .written unknown unstarted load filled wrote told, same, beside, normal => by
    obtain ⟨_, middle', filled', reached⟩ := filled.beside rfl beside.enter
    cases same
    obtain ⟨_, stores, rfl⟩ := writeOutput_ok wrote
    obtain ⟨_, _, found, _⟩ := SourceFile.load_eq_ok load
    obtain ⟨_, found⟩ := filled.effect.workspace.readable found
    obtain ⟨_, _, normal⟩ := normal
    obtain ⟨_, stores', reached⟩ := reached.stored normal found stores
    obtain ⟨after', told', reached⟩ := reached.leave.told told
    exact ⟨_, after', .written (beside.compiled.symm ▸ unknown) (beside.inProgress.symm ▸ unstarted)
      (beside.load load) filled' (writeOutput_stores stores') told', reached⟩

theorem Fills.beside {state' : BuildState} :
    Fills settings depth file fragments state events result after → result = .ok code →
    Beside settings root content start start' state state' →
    ∃ events' after', Fills settings depth file fragments state' events' (.ok code) after' ∧
      Beside settings root content start start' after after'
  | .nil, same, beside => by
    cases same
    exact ⟨_, state', .nil, beside⟩
  | .text following, same, beside => by
    obtain ⟨_, found, rfl⟩ := map_eq_ok same
    obtain ⟨_, after', following', reached⟩ := following.beside found beside
    exact ⟨_, after', .text following', reached⟩
  | .failed _, same, _ => by cases same
  | .site imported following, same, beside => by
    obtain ⟨_, found, rfl⟩ := map_eq_ok same
    obtain ⟨_, middle', imported', middle⟩ :=
      imported.beside rfl beside (importTarget_normal _ _)
    obtain ⟨_, after', following', reached⟩ := following.beside found middle
    exact ⟨_, after', .site imported' following', reached⟩

end

end Build
end ScriptKit
