import ScriptKit.Proofs.Build.Refinement
import ScriptKit.Proofs.FileTree.Making

/-!
What compiling leaves alone. However a compilation ends, and at whatever depth it failed, nothing has
happened outside the outputs of the files that finished meanwhile, except that directories were made.
The file itself is among those only if its compilation succeeded.
-/
namespace ScriptKit

namespace FileTree

/-- Outside the changing places nothing happens, but a directory may be made where nothing was. -/
def Spares (changing : Location → Prop) (before after : FileTree) : Prop :=
  ∀ place, ¬ changing place → after.get? place = before.get? place ∨
    before.get? place = none ∧ after.get? place = some .directory

namespace Spares

variable {changing : Location → Prop} {before middle after : FileTree}

theorem refl (tree : FileTree) : Spares changing tree tree := fun _ _ => .inl rfl

theorem trans (first : Spares changing before middle) (second : Spares changing middle after) :
    Spares changing before after := by
  intro place still
  rcases second place still with same | ⟨absent, made⟩
  · rw [same]
    exact first place still
  · rcases first place still with same | ⟨_, made'⟩
    · exact .inr ⟨same.symm.trans absent, made⟩
    · cases absent.symm.trans made'

theorem weaken {wider : Location → Prop} (spares : Spares changing before after)
    (includes : ∀ place, changing place → wider place) : Spares wider before after :=
  fun place still => spares place fun changes => still (includes place changes)

end Spares

private theorem makeDirectories_spares (tree : FileTree) (path : String) :
    Spares (fun _ => False) tree (tree.makeDirectories path).2 := by
  have furnished := makeDirectories_furnishes tree path
  generalize (tree.makeDirectories path).2 = after at furnished
  induction furnished with
  | refl => exact .refl tree
  | tail _ furnishes ih =>
    obtain ⟨made, absent, rfl⟩ := furnishes
    have nonroot : made ≠ [] := by
      rintro rfl
      cases absent
    refine ih.trans fun place _ => ?_
    rw [get?_insert nonroot]
    split
    · rename_i same
      exact .inr ⟨same ▸ absent, rfl⟩
    · exact .inl rfl

private theorem write_spares {tree after : FileTree}
    (written : tree.write path content = .ok after) :
    Spares (· = location path) tree after := by
  obtain ⟨front, cut, _⟩ := pathParts_cut path
  obtain ⟨_, _, _, free, rfl⟩ := (write_iff cut).mp written
  have nonroot : location path ≠ [] := by
    intro root
    rw [root] at free
    exact free tree.get?_root
  intro place other
  rw [get?_insert nonroot, if_neg other]
  exact .inl rfl

end FileTree

namespace Build

/-- Writing an output spares everything else, and everything at all if it fails. -/
theorem writeOutput_spares (run : Yields (writeOutput output code) before result after) :
    before.workspace.files.Spares
      (fun place => result = .ok () ∧ before.workspace.location output = place)
      after.workspace.files := by
  have furnished : before.workspace.files.Spares (fun _ => False)
      (before.workspace.makeDirectories (Path.directory output)).2.files :=
    FileTree.makeDirectories_spares _ _
  have grows := before.workspace.makeDirectories_grows (Path.directory output)
  rcases writeOutput_cases run with ⟨_, stores, rfl, rfl⟩ | ⟨_, _, rfl, rfl⟩
  · obtain ⟨files, wrote, same⟩ := bind_eq_ok.mp stores.written
    cases same
    refine (furnished.weaken fun _ => False.elim).trans ((FileTree.write_spares wrote).weaken ?_)
    rintro place rfl
    exact ⟨rfl, (grows.location output).symm⟩
  · exact furnished.weaken fun _ => False.elim

private theorem spares_of_refused {failure : Failure}
    (refused : Yields (writeOutput output code) before (.error failure) after) :
    before.workspace.files.Spares changing after.workspace.files := by
  refine (writeOutput_spares refused).weaken ?_
  rintro _ ⟨impossible, _⟩
  cases impossible

private theorem spares_of_written
    (wrote : Yields (writeOutput (settings.outputPath path) code) before (.ok ()) after) :
    before.workspace.files.Spares (Outputs settings before.workspace [.finished path code])
      after.workspace.files := by
  refine (writeOutput_spares wrote).weaken ?_
  rintro place ⟨_, same⟩
  exact ⟨path, List.mem_singleton.mpr rfl, same⟩

theorem Shows.spares (shown : Shows before after) :
    before.workspace.files.Spares changing after.workspace.files :=
  shown.files ▸ .refl _

/-- Two stretches of events, of which the second begins where the first left the files. -/
theorem Outputs.spares_trans {before middle after : Workspace} (grows : before.Grows changing middle)
    (first : before.files.Spares (Outputs settings before events) middle.files)
    (second : middle.files.Spares (Outputs settings middle events') after.files) :
    before.files.Spares (Outputs settings before (events ++ events')) after.files := by
  refine (first.weaken ?_).trans (second.weaken ?_)
  · rintro place ⟨path, member, same⟩
    refine ⟨path, ?_, same⟩
    rw [finished_append, List.map_append]
    exact List.mem_append_left _ member
  · rintro place ⟨path, member, same⟩
    refine ⟨path, ?_, (grows.location _).symm.trans same⟩
    rw [finished_append, List.map_append]
    exact List.mem_append_right _ member

mutual

/-- A compilation spares everything but the outputs of the files that finished in it. -/
theorem Compiles.spares : Compiles settings depth path before events result after →
    before.workspace.files.Spares (Outputs settings before.workspace events) after.workspace.files
  | .exhausted => .refl _
  | .cached _ read => (readOutput_shows read).spares
  | .cyclic _ _ warned => (warn_shows warned).spares
  | .unloaded _ _ _ => .refl _
  | .unfilled _ _ _ filled => filled.spares
  | .unwritten _ _ _ filled refused => by
    have whole := filled.spares.trans (spares_of_refused refused)
    exact whole
  | .written _ _ _ filled wrote told => by
    have stored := (spares_of_written wrote).trans (info_shows told).spares
    have whole := Outputs.spares_trans filled.effect.workspace filled.spares stored
    exact whole

theorem Fills.spares : Fills settings depth file fragments before events result after →
    before.workspace.files.Spares (Outputs settings before.workspace events) after.workspace.files
  | .nil => .refl _
  | .text following => following.spares
  | .failed imported => imported.spares
  | .site imported following =>
    Outputs.spares_trans imported.effect.workspace imported.spares following.spares

end

/-- A compilation that fails does not add its own file to the compiled ones. -/
theorem Compiles.not_added {failure : Failure}
    (called : Compiles settings depth path before events (.error failure) after)
    (orderly : Orderly before) (known : path ∈ after.compiled) : path ∈ before.compiled := by
  -- While the imports of a file are compiled the file is in progress, so it is not compiled then.
  have apart {depth fragments events} {result : Except Failure String} {middle : BuildState}
      (unknown : path ∉ before.compiled) (unstarted : path ∉ before.inProgress)
      (filled : Fills settings depth path fragments (before.enter path) events result middle) :
      path ∉ middle.compiled := by
    have reached := (filled.orderly (orderly.enter unknown unstarted)).1
    exact reached.apart path (filled.effect.inProgress ▸ List.mem_cons_self)
  cases called with
  | exhausted => exact known
  | cached known' _ => exact known'
  | unloaded _ _ _ => exact known
  | unfilled unknown unstarted _ filled =>
    have open' := apart unknown unstarted filled
    exact absurd known open'
  | unwritten unknown unstarted _ filled refused =>
    obtain ⟨_, _, _, rfl⟩ := writeOutput_refused refused
    have open' := apart unknown unstarted filled
    exact absurd known open'

/-- The place of the output of a file that was compiled in between. -/
def NewOutput (settings : BuildSettings) (before after : BuildState) (place : Location) : Prop :=
  ∃ path ∈ after.compiled, path ∉ before.compiled ∧
    before.workspace.location (settings.outputPath path) = place

/-- What compiling a file did is accounted for by the files that were compiled meanwhile. -/
structure Accounts (settings : BuildSettings) (path : String) (before : BuildState)
    (result : Except Failure String) (after : BuildState) : Prop where
  /-- No file counts as compiled that did before and no longer does. -/
  compiled : ∀ other ∈ before.compiled, other ∈ after.compiled
  /-- Apart from new outputs, every place has what it had, or a directory where nothing was. -/
  spared : ∀ place, ¬ NewOutput settings before after place →
    after.workspace.files.get? place = before.workspace.files.get? place ∨
      before.workspace.files.get? place = none ∧
        after.workspace.files.get? place = some .directory
  /-- Files stay files and directories stay directories, new outputs included. -/
  present : ∀ place entry, before.workspace.files.get? place = some entry →
    ∃ entry', after.workspace.files.get? place = some entry' ∧ entry'.isDirectory = entry.isDirectory
  /-- What a path read before, it reads still, unless it leads to a new output. -/
  read : ∀ other content, before.workspace.read other = .ok content →
    ¬ NewOutput settings before after (before.workspace.location other) →
      after.workspace.read other = .ok content
  /-- A failure does not add the file to the compiled ones. -/
  failed : ∀ failure, result = .error failure → path ∈ after.compiled → path ∈ before.compiled
  /-- A failure leaves the output of the file as it was, unless a file that was compiled meanwhile
  shares it. -/
  own : ∀ failure, result = .error failure →
    (∃ other ∈ after.compiled, other ∉ before.compiled ∧ other ≠ path ∧
      before.workspace.location (settings.outputPath other) =
        before.workspace.location (settings.outputPath path)) ∨
    after.workspace.files.get? (before.workspace.location (settings.outputPath path)) =
        before.workspace.files.get? (before.workspace.location (settings.outputPath path)) ∨
      before.workspace.files.get? (before.workspace.location (settings.outputPath path)) = none ∧
        after.workspace.files.get? (before.workspace.location (settings.outputPath path)) =
          some .directory

/-- The files that finished are new among the compiled ones. -/
theorem Effect.newOutput (effect : Effect settings before events after) (once : after.compiled.Nodup)
    (changes : Outputs settings before.workspace events place) :
    NewOutput settings before after place := by
  obtain ⟨path, member, same⟩ := changes
  rw [effect.compiled] at once
  refine ⟨path, ?_, fun known => ?_, same⟩
  · rw [effect.compiled]
    exact List.mem_append_right _ member
  · exact (List.nodup_append.mp once).2.2 path known path member rfl

theorem Compiles.accounts (called : Compiles settings depth path before events result after)
    (orderly : Orderly before) : Accounts settings path before result after := by
  have effect := called.effect
  have once := (called.orderly orderly).1.once
  have grows := effect.workspace.weaken fun _ => effect.newOutput once
  have spares := called.spares.weaken fun _ => effect.newOutput once
  refine ⟨effect.mem_compiled, spares, ?_, fun other content found => grows.read found, ?_, ?_⟩
  · intro place entry found
    rcases grows.files place entry found with kept | ⟨_, isFile, content, written⟩
    · exact ⟨entry, kept, rfl⟩
    · cases entry with
      | directory => exact absurd rfl isFile
      | file old => exact ⟨_, written, rfl⟩
  · rintro failure rfl
    exact called.not_added orderly
  · rintro failure rfl
    by_cases new : NewOutput settings before after
        (before.workspace.location (settings.outputPath path))
    · obtain ⟨other, known, unknown, same⟩ := new
      refine .inl ⟨other, known, unknown, ?_, same⟩
      rintro rfl
      exact unknown (called.not_added orderly known)
    · exact .inr (spares _ new)

/-- The states of a build: where a session is, and where any compilation in it was entered. -/
def Visited (settings : BuildSettings) (state : BuildState) : Prop :=
  ∃ events disturbances final, Session settings events disturbances final ∧
    (state = final ∨ ∃ path, .entered path state ∈ events)

theorem Visited.orderly (visited : Visited settings state) : Orderly state := by
  obtain ⟨events, disturbances, final, session, rfl | ⟨path, member⟩⟩ := visited
  · exact session.orderly.1
  · exact session.orderly.2 path state member

/-- In every state that a build comes to, whatever compiling a file does, by a call from outside or
for an import at any depth, is accounted for by the files that are newly compiled afterwards: nothing
else has changed but that directories were made, and if the compilation failed then its own file is not
one of them. -/
theorem Visited.compile_accounts (visited : Visited settings before) :
    (∀ path result after, Yields (compile settings path) before result after →
      Accounts settings (before.workspace.absolute path) before result after) ∧
    ∀ depth path result after, Yields (compileWithin settings depth path) before result after →
      Accounts settings path before result after := by
  have nested (depth : Nat) (path : String) (result : Except Failure String) (after : BuildState)
      (run : Yields (compileWithin settings depth path) before result after) :
      Accounts settings path before result after := by
    obtain ⟨events, called⟩ := compileWithin_traced run
    exact called.accounts visited.orderly
  refine ⟨fun path result after run => ?_, nested⟩
  exact nested _ _ result after (run.rest .get)

private theorem pair_footprint : ∃ failure after,
    Yields (compile (pairSettings "lib") "p.as") (.fresh pairProject) (.error failure) after ∧
      after.compiled = ["/q.as"] := by
  obtain ⟨single, absent⟩ := pair_targets
  obtain ⟨first, after, last⟩ := pair_runs
  have compiled : ((compileWithin (pairSettings "lib") 5 "/lib").run.run pairMiddle).2.compiled =
      ["/q.as"] := by decide +kernel
  rw [last] at compiled
  obtain ⟨_, first⟩ := compileWithin_traced (single ▸ first)
  obtain ⟨_, last⟩ := compileWithin_traced (absent ▸ last)
  have called : Compiles (pairSettings "lib") 6 "/p.as" (.fresh pairProject) _ (.error _) after.leave :=
    .unfilled List.not_mem_nil List.not_mem_nil load_pair (.site first (.text (.failed last)))
  exact ⟨_, after.leave, called.called pair_absolute, compiled⟩

/-- The first import is compiled and the second one fails. The importing file is not compiled then, and
its source is what it was. -/
theorem Visited.compile_accounts_pair :
    Visited (pairSettings "lib") (.fresh pairProject) ∧
    ∃ failure after,
      Yields (compile (pairSettings "lib") "p.as") (.fresh pairProject) (.error failure) after ∧
      "/q.as" ∈ after.compiled ∧ "/p.as" ∉ after.compiled ∧
      after.workspace.read "/p.as" = .ok pairText.toUTF8 := by
  have visited : Visited (pairSettings "lib") (.fresh pairProject) :=
    ⟨[], [], _, .start pairProject, .inl rfl⟩
  obtain ⟨failure, after, run, compiled⟩ := pair_footprint
  have accounts := (compile_accounts visited).1 "p.as" _ after run
  refine ⟨visited, failure, after, run, by simp [compiled], ?_, ?_⟩
  · intro known
    exact List.not_mem_nil (accounts.failed failure rfl known)
  · refine accounts.read "/p.as" _ (by decide +kernel) ?_
    rintro ⟨path, known, _, same⟩
    rw [compiled, List.mem_singleton] at known
    subst known
    exact absurd same (by decide +kernel)

end Build
end ScriptKit
