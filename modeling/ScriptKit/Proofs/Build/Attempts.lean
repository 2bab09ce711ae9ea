import Mathlib.Data.List.Induction
import ScriptKit.Proofs.Build.Session
import ScriptKit.Proofs.Table

/-!
A build as attempts. The files of the entries are compiled one after the other, each in the state that
the ones before it have left, until all are attempted or one fails with what ends the build. The
report has every file in one of its two tables, as long as no file is attempted twice.
-/
namespace ScriptKit.Build

/-- Files are compiled one after the other, with these results, of which none ends the build. In
between, only the console changes. -/
inductive Attempts (settings : BuildSettings) : BuildState →
    List (String × Except Failure String) → BuildState → Prop where
  | nil : Attempts settings before [] before
  | cons (called : Yields (compile settings path) before result middle)
      (recorded : ∀ failure, result = .error failure → Recorded failure) (shown : Shows middle next)
      (others : Attempts settings next results after) :
      Attempts settings before ((path, result) :: results) after

/-- Of the files at the paths, the first ones are attempted; the next one fails, and the rest is never
come to. -/
structure Aborts (settings : BuildSettings) (before : BuildState) (paths : List String)
    (failure : Failure) (after : BuildState) : Prop where
  unrecorded : ¬ Recorded failure
  stopped : ∃ results path later middle, paths = results.map Prod.fst ++ path :: later ∧
    Attempts settings before results middle ∧
    Yields (compile settings path) middle (.error failure) after

/-- The report with what came of files. -/
def Report.noteAll (settings : BuildSettings) (report : Report)
    (results : List (String × Except Failure String)) : Report :=
  results.foldl (fun report entry => report.note settings entry.1 entry.2) report

/-- An entry is noted with what its compilation gives. -/
theorem buildEntry_notes {before : BuildState}
    (called : Yields (compile settings (before.workspace.absolute entry)) before result middle)
    (recorded : ∀ failure, result = .error failure → Recorded failure) :
    ∃ after, Shows middle after ∧ Yields (buildEntry settings report entry) before
      (.ok (report.note settings (before.workspace.absolute entry) result)) after := by
  have run := yields_run (buildEntry settings report entry) before
  obtain ⟨_, _, called', ended⟩ := buildEntry_cases run
  obtain ⟨rfl, rfl⟩ := called.unique called'
  rcases ended with ⟨_, shown, same⟩ | ⟨failure, rfl, unrecorded, _⟩
  · rw [same] at run
    exact ⟨_, shown, run⟩
  · exact absurd (recorded failure rfl) unrecorded

theorem compile_directory (run : Yields (compile settings path) before result after) :
    after.workspace.directory = before.workspace.directory := by
  obtain ⟨events, called⟩ := compileWithin_traced (run.rest .get)
  exact called.effect.workspace.directory

private theorem compile_extends (run : Yields (compile settings path) before result after) :
    before.compiled <+: after.compiled := by
  obtain ⟨events, called⟩ := compileWithin_traced (run.rest .get)
  rw [called.effect.compiled]
  exact List.prefix_append _ _

/-- A build makes its attempts and notes their results, or it is cut short. -/
theorem build_attempts (run : Yields (build settings report entries) before result after) :
    (∃ results, results.map Prod.fst = entries.map before.workspace.absolute ∧
      Attempts settings before results after ∧ result = .ok (report.noteAll settings results)) ∨
    ∃ failure, Aborts settings before (entries.map before.workspace.absolute) failure after ∧
      result = .error failure := by
  induction entries generalizing report before with
  | nil =>
    obtain ⟨rfl, rfl⟩ := yields_pure.mp run
    exact .inl ⟨[], rfl, .nil, rfl⟩
  | cons entry entries ih =>
    rcases yields_bind.mp run with ⟨report', next, first, run⟩ | ⟨failure, first, rfl⟩
    · obtain ⟨compiled, middle, called, ⟨recorded, shown, noted⟩ | ⟨_, _, _, _, impossible⟩⟩ :=
        buildEntry_cases first
      · obtain rfl := Except.ok.inj noted
        have directory := shown.directory.trans (compile_directory called)
        have absolute : next.workspace.absolute = before.workspace.absolute := by
          unfold Workspace.absolute
          rw [directory]
        have others := ih run
        rw [absolute] at others
        rcases others with ⟨results, paths, attempts, rfl⟩ | ⟨failure, aborts, rfl⟩
        · exact .inl ⟨(_, compiled) :: results, congrArg (List.cons _) paths,
            .cons called recorded shown attempts, rfl⟩
        · obtain ⟨unrecorded, results, path, later, reached, paths, attempts, failed⟩ := aborts
          exact .inr ⟨failure, ⟨unrecorded, (_, compiled) :: results, path, later, reached,
            congrArg (List.cons _) paths, .cons called recorded shown attempts, failed⟩, rfl⟩
      · cases impossible
    · obtain ⟨_, middle, called, ⟨_, _, impossible⟩ | ⟨_, rfl, unrecorded, rfl, same⟩⟩ :=
        buildEntry_cases first
      · cases impossible
      · obtain rfl := Except.error.inj same
        exact .inr ⟨failure, ⟨unrecorded, [], _, _, before, rfl, .nil, called⟩, rfl⟩

theorem Attempts.extends (attempts : Attempts settings before results after) :
    before.compiled <+: after.compiled := by
  induction attempts with
  | nil => exact List.prefix_rfl
  | cons called _ shown others ih =>
    rw [shown.compiled] at ih
    exact (compile_extends called).trans ih

theorem Attempts.recorded {failure : Failure} (attempts : Attempts settings before results after)
    (member : (path, .error failure) ∈ results) : Recorded failure := by
  induction attempts with
  | nil => cases member
  | cons _ recorded _ _ ih =>
    rcases List.mem_cons.mp member with same | member
    · exact recorded failure (Prod.mk.inj same).2.symm
    · exact ih member

theorem Session.attempts (session : Session settings events disturbances before)
    (attempts : Attempts settings before results after) :
    ∃ events', Session settings (events ++ events') disturbances after := by
  induction attempts generalizing events with
  | nil => exact ⟨[], by simpa using session⟩
  | cons called _ shown others ih =>
    obtain ⟨events', session⟩ := session.call_compile called
    obtain ⟨events'', session⟩ := ih (.shown session shown)
    exact ⟨events' ++ events'', by simpa using session⟩

/-- The files that were compiled with their outputs, and those that were not with the reason, in the
order of the attempts. -/
def tally (settings : BuildSettings) (results : List (String × Except Failure String)) : Report where
  outputs := results.filterMap fun (path, result) =>
    match result with
    | .ok _ => some (path, settings.outputPath path)
    | .error _ => none
  failed := results.filterMap fun (path, result) =>
    match result with
    | .ok _ => none
    | .error failure => some (path, failure.message)

section
variable {results : List (String × Except Failure String)}

private theorem mem_outputs_tally : path ∈ (tally settings results).outputs.map Prod.fst ↔
    ∃ text, (path, .ok text) ∈ results := by
  simp only [tally, List.mem_map, List.mem_filterMap]
  constructor
  · rintro ⟨_, ⟨⟨path, _ | text⟩, member, same⟩, rfl⟩
    · cases same
    · cases same
      exact ⟨text, member⟩
  · rintro ⟨text, member⟩
    exact ⟨_, ⟨_, member, rfl⟩, rfl⟩

private theorem mem_failed_tally : path ∈ (tally settings results).failed.map Prod.fst ↔
    ∃ failure, (path, .error failure) ∈ results := by
  simp only [tally, List.mem_map, List.mem_filterMap]
  constructor
  · rintro ⟨_, ⟨⟨path, failure | _⟩, member, same⟩, rfl⟩
    · cases same
      exact ⟨failure, member⟩
    · cases same
  · rintro ⟨failure, member⟩
    exact ⟨_, ⟨_, member, rfl⟩, rfl⟩

/-- A file that is attempted once is in exactly one of the tables. -/
theorem tally_exactly (distinct : (results.map Prod.fst).Nodup)
    (member : path ∈ results.map Prod.fst) :
    path ∈ (tally settings results).outputs.map Prod.fst ↔
      path ∉ (tally settings results).failed.map Prod.fst := by
  rw [mem_outputs_tally, mem_failed_tally]
  obtain ⟨⟨_, result⟩, listed, rfl⟩ := List.mem_map.mp member
  constructor
  · rintro ⟨text, compiled⟩ ⟨failure, failed⟩
    cases List.inj_on_of_nodup_map distinct compiled failed rfl
  · intro none
    cases result with
    | error failure => exact absurd ⟨failure, listed⟩ none
    | ok text => exact ⟨text, listed⟩

theorem Report.note_new {report : Report}
    (new : path ∉ report.outputs.map Prod.fst ∧ path ∉ report.failed.map Prod.fst) :
    report.note settings path result =
      ⟨report.outputs ++ (tally settings [(path, result)]).outputs,
        report.failed ++ (tally settings [(path, result)]).failed⟩ := by
  cases result with
  | error failure => simp [Report.note, Table.put_new new.2, tally]
  | ok text => simp [Report.note, Table.put_new new.1, tally]

/-- Results of new files are added at the end. -/
theorem Report.noteAll_eq {report : Report} (distinct : (results.map Prod.fst).Nodup)
    (new : ∀ path ∈ results.map Prod.fst,
      path ∉ report.outputs.map Prod.fst ∧ path ∉ report.failed.map Prod.fst) :
    report.noteAll settings results = ⟨report.outputs ++ (tally settings results).outputs,
      report.failed ++ (tally settings results).failed⟩ := by
  induction results generalizing report with
  | nil => simp [Report.noteAll, tally]
  | cons entry results ih =>
    obtain ⟨once, distinct⟩ := List.nodup_cons.mp distinct
    obtain ⟨first, new⟩ := List.forall_mem_cons.mp new
    rw [Report.noteAll, List.foldl_cons, Report.note_new first]
    refine (ih distinct fun path member => ?_).trans ?_
    · obtain ⟨newOutput, newFailure⟩ := new path member
      have other : path ≠ entry.1 := by
        rintro rfl
        exact once member
      rw [List.map_append, List.map_append, List.mem_append, List.mem_append, mem_outputs_tally,
        mem_failed_tally]
      constructor
      · rintro (known | ⟨text, listed⟩)
        · exact newOutput known
        · exact other (congrArg Prod.fst (List.mem_singleton.mp listed))
      · rintro (known | ⟨failure, listed⟩)
        · exact newFailure known
        · exact other (congrArg Prod.fst (List.mem_singleton.mp listed))
    · simp only [tally, List.append_assoc, ← List.filterMap_append, List.singleton_append]

/-- A table after more entries, of which later ones replace earlier ones with the same key. -/
def Report.putAll (entries table : List (String × String)) : List (String × String) :=
  entries.foldl (fun table entry => Table.put entry.1 entry.2 table) table

theorem Report.noteAll_eq_putAll (report : Report) :
    report.noteAll settings results = ⟨putAll (tally settings results).outputs report.outputs,
      putAll (tally settings results).failed report.failed⟩ := by
  induction results generalizing report with
  | nil => rfl
  | cons entry results ih =>
    rw [show report.noteAll settings (entry :: results) =
      (report.note settings entry.1 entry.2).noteAll settings results from rfl, ih]
    obtain ⟨path, failure | text⟩ := entry
    · simp only [tally, List.filterMap_cons, putAll, List.foldl_cons, Report.note]
    · simp only [tally, List.filterMap_cons, putAll, List.foldl_cons, Report.note]

theorem Report.nodup_putAll (distinct : (table.map Prod.fst).Nodup) :
    ((putAll entries table).map Prod.fst).Nodup := by
  induction entries generalizing table with
  | nil => exact distinct
  | cons entry entries ih =>
    exact ih (Table.nodup_put distinct entry.1 entry.2)

/-- If no key has two values, a table has all that was put into it. -/
theorem Report.mem_putAll (functional : ∀ one ∈ entries, ∀ two ∈ entries, one.1 = two.1 → one = two) :
    entry ∈ putAll entries [] ↔ entry ∈ entries := by
  induction entries using List.reverseRecOn with
  | nil => rfl
  | append_singleton entries last ih =>
    have earlier := ih fun one member two member' =>
      functional one (List.mem_append_left _ member) two (List.mem_append_left _ member')
    rw [putAll, List.foldl_append]
    have distinct : ((putAll entries []).map Prod.fst).Nodup := nodup_putAll List.nodup_nil
    refine (Table.mem_put distinct).trans ?_
    rw [earlier, List.mem_append, List.mem_singleton]
    constructor
    · rintro (same | ⟨member, _⟩)
      · exact .inr same
      · exact .inl member
    · rintro (member | same)
      · by_cases key : entry.1 = last.1
        · exact .inl (functional entry (List.mem_append_left _ member) last
            (List.mem_append_right _ (List.mem_singleton.mpr rfl)) key)
        · exact .inr ⟨member, key⟩
      · exact .inl same

private theorem value_of_mem_outputs (member : entry ∈ (tally settings results).outputs) :
    entry.2 = settings.outputPath entry.1 := by
  obtain ⟨⟨path, failure | text⟩, _, same⟩ := List.mem_filterMap.mp member
  · cases same
  · rw [← Option.some.inj same]

private theorem outputs_functional : ∀ one ∈ (tally settings results).outputs,
    ∀ two ∈ (tally settings results).outputs, one.1 = two.1 → one = two := by
  intro one member two member' key
  refine Prod.ext key ?_
  rw [value_of_mem_outputs member, value_of_mem_outputs member', key]

/-- The files in the first table are those that were compiled at any time. -/
theorem mem_outputs_noteAll :
    path ∈ (Report.empty.noteAll settings results).outputs.map Prod.fst ↔
      ∃ text, (path, .ok text) ∈ results := by
  rw [← mem_outputs_tally, List.mem_map, List.mem_map, Report.noteAll_eq_putAll]
  exact exists_congr fun entry => and_congr_left' (Report.mem_putAll outputs_functional)

/-- A table does not depend on the order in which its entries are put into it. -/
theorem Report.putAll_perm {entries entries' : List (String × String)}
    (functional : ∀ one ∈ entries, ∀ two ∈ entries, one.1 = two.1 → one = two)
    (same : ∀ entry, entry ∈ entries ↔ entry ∈ entries') :
    (putAll entries []).Perm (putAll entries' []) := by
  have functional' : ∀ one ∈ entries', ∀ two ∈ entries', one.1 = two.1 → one = two :=
    fun one member two member' =>
      functional one ((same one).mpr member) two ((same two).mpr member')
  have fresh : (([] : List (String × String)).map Prod.fst).Nodup := List.nodup_nil
  have distinct (entries : List (String × String)) : (putAll entries []).Nodup :=
    (nodup_putAll fresh).of_map
  refine (List.perm_ext_iff_of_nodup (distinct entries) (distinct entries')).mpr fun entry => ?_
  rw [mem_putAll functional, mem_putAll functional', same]

/-- A report does not depend on the order of the results, if each file has one result. -/
theorem Report.noteAll_perm {results results' : List (String × Except Failure String)}
    (functional : ∀ one ∈ results, ∀ two ∈ results, one.1 = two.1 → one = two)
    (same : ∀ entry, entry ∈ results ↔ entry ∈ results') :
    (empty.noteAll settings results).outputs.Perm (empty.noteAll settings results').outputs ∧
      (empty.noteAll settings results).failed.Perm (empty.noteAll settings results').failed := by
  rw [noteAll_eq_putAll, noteAll_eq_putAll]
  constructor
  · apply putAll_perm outputs_functional
    intro entry
    simp only [tally, List.mem_filterMap, same]
  · refine putAll_perm (fun one member two member' key => ?_) fun entry => ?_
    · obtain ⟨⟨path, failure | text⟩, listed, same⟩ := List.mem_filterMap.mp member
      · obtain ⟨⟨path', failure' | text'⟩, listed', same'⟩ := List.mem_filterMap.mp member'
        · rw [← Option.some.inj same, ← Option.some.inj same'] at key ⊢
          cases functional _ listed _ listed' key
          rfl
        · cases same'
      · cases same
    · simp only [tally, List.mem_filterMap, same]

end

end ScriptKit.Build
