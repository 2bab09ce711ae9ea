import ScriptKit.Proofs.Evaluation.Derivation

/-!
The machine with its two registers and the semantics without them agree: a program run on a machine
without a pending return has exactly the outcomes that the big-step rules derive. Lack of fuel is no
outcome, and with enough fuel every derived outcome is reached.
-/
namespace ScriptKit

open Run

namespace Run

variable {α β : Type}

/-- With enough fuel for nesting and for rounds of loops the action yields the result, which is not
lack of fuel. -/
def Settles (action : Nat → Nat → Run α) (before : Machine) (result : Except RunFault α)
    (after : Machine) : Prop :=
  result ≠ .error .outOfFuel ∧ ∃ bound, ∀ fuel rounds, bound ≤ fuel → bound ≤ rounds →
    Yields (action fuel rounds) before result after

private theorem settles_of {action : Nat → Nat → Run α} (fuelled : result ≠ .error .outOfFuel)
    (always : ∀ fuel rounds, Yields (action fuel rounds) before result after) :
    Settles action before result after :=
  ⟨fuelled, 0, fun fuel rounds _ _ => always fuel rounds⟩

private theorem settles_ok {action : Nat → Nat → Run α}
    (always : ∀ fuel rounds, Yields (action fuel rounds) before (.ok value) after) :
    Settles action before (.ok value) after :=
  settles_of nofun always

theorem Settles.bind {action : Nat → Nat → Run α} {next : Nat → Nat → α → Run β}
    (first : Settles action before (.ok value) middle)
    (rest : Settles (fun fuel rounds => next fuel rounds value) middle result after) :
    Settles (fun fuel rounds => action fuel rounds >>= next fuel rounds) before result after := by
  obtain ⟨_, one, first⟩ := first
  obtain ⟨fuelled, two, rest⟩ := rest
  refine ⟨fuelled, one + two, fun fuel rounds enough many => ?_⟩
  exact (first fuel rounds (by omega) (by omega)).bind (rest fuel rounds (by omega) (by omega))

theorem Settles.bind_error {action : Nat → Nat → Run α} {next : Nat → Nat → α → Run β}
    (first : Settles action before (.error fault) after) :
    Settles (fun fuel rounds => action fuel rounds >>= next fuel rounds) before (.error fault)
      after := by
  obtain ⟨fuelled, bound, first⟩ := first
  refine ⟨fault_fuelled fuelled, bound, fun fuel rounds enough many => ?_⟩
  exact (first fuel rounds enough many).bind_error

theorem Settles.within {action : Nat → Nat → Run α} {before after : Store} {inner : ScopeId}
    (inside : Settles action (before.machine inner none) result (after.machine inner pending)) :
    Settles (fun fuel rounds => Run.within inner (action fuel rounds)) (before.machine scope none)
      result (after.machine scope pending) := by
  obtain ⟨fuelled, bound, inside⟩ := inside
  refine ⟨fuelled, bound, fun fuel rounds enough many => ?_⟩
  exact yields_within.mpr ⟨_, inside fuel rounds enough many, rfl⟩

end Run

private theorem settles_evaluate {node : Node}
    (step : Settles (fun fuel _ => evaluateStep file fuel (evaluate file fuel) node) before result
      after) : Settles (fun fuel _ => evaluate file fuel node) before result after := by
  obtain ⟨fuelled, bound, step⟩ := step
  refine ⟨fuelled, bound + 1, fun fuel rounds enough many => ?_⟩
  obtain ⟨fuel, rfl⟩ := Nat.exists_eq_add_one.mpr (Nat.lt_of_lt_of_le bound.succ_pos enough)
  exact step fuel bound (by omega) (by omega)

/-- A loop that settles does so with as many rounds as there is fuel. -/
theorem settles_loop {span : Span}
    (looped : Settles (fun fuel rounds => runLoop (evaluate file fuel) test body rounds .undefined)
      before result after) :
    Settles (fun fuel _ => evaluate file fuel (.statement (.loop span test body))) before result
      after := by
  obtain ⟨fuelled, bound, looped⟩ := looped
  exact settles_evaluate
    ⟨fuelled, bound, fun fuel _ enough _ => looped fuel fuel enough enough⟩

private theorem settles_round
    (round : Settles (fun fuel rounds => do
        let condition ← evaluate file fuel (.expression test)
        if condition.isTruthy then
          let value ← evaluate file fuel (.statement body)
          if ← isReturning then return value
          else runLoop (evaluate file fuel) test body rounds value
        else return previous) before result after) :
    Settles (fun fuel rounds => runLoop (evaluate file fuel) test body rounds previous) before
      result after := by
  obtain ⟨fuelled, bound, round⟩ := round
  refine ⟨fuelled, bound + 1, fun fuel rounds enough many => ?_⟩
  obtain ⟨rounds, rfl⟩ := Nat.exists_eq_add_one.mpr (Nat.lt_of_lt_of_le bound.succ_pos many)
  exact round fuel rounds (by omega) (by omega)

private theorem applyArithmetic_fuelled {left right : Number} :
    applyArithmetic file span operator left right ≠ .error .outOfFuel := by
  unfold applyArithmetic
  split <;> simp [RunFault.located]

private theorem shown_fuelled {value : Value} : value.shown ≠ .error .outOfFuel := by
  unfold Value.shown
  split <;> simp

private theorem applyBinary_fuelled {left right : Value} :
    applyBinary file span operator left right ≠ .error .outOfFuel := by
  unfold applyBinary
  split
  · simp
  split
  · simp
  split
  · cases first : left.shown with
    | error fault =>
      have fuelled := first ▸ @shown_fuelled left
      exact fault_fuelled fuelled
    | ok text =>
      cases second : right.shown with
      | error fault =>
        have fuelled := second ▸ @shown_fuelled right
        exact fault_fuelled fuelled
      | ok other => nofun
  split
  · split <;> simp [typeMismatch, RunFault.located]
  · split
    · exact applyArithmetic_fuelled
    · simp [typeMismatch, RunFault.located]

section
variable {file : Option String}

/-- However the body of a function completes, that is the value of the call and the slot is empty. -/
theorem settles_takeReturn {before after : Store} {action : Nat → Nat → Run Value} {inner : ScopeId}
    (body : Settles action (before.machine inner none) (outcome.map Completion.value)
      (after.machine inner (pendingAfter outcome))) :
    Settles (fun fuel rounds => do
        let result ← within inner (action fuel rounds)
        takeReturn result) (before.machine scope none) (outcome.map Completion.value)
      (after.machine scope none) := by
  rcases outcome with fault | ⟨value⟩ | ⟨value⟩
  · exact body.within.bind_error
  · exact body.within.bind (settles_of nofun fun _ _ => yields_takeReturn.mpr ⟨rfl, rfl⟩)
  · exact body.within.bind (settles_of nofun fun _ _ => yields_takeReturn.mpr ⟨rfl, rfl⟩)

private theorem yields_other {target : Value} {body : Closure → Run Value}
    (other : ∀ closure, target ≠ .function closure) :
    Yields (match target with
      | .function closure => body closure
      | _ => report file span cause) before (.error (.located file span cause)) before := by
  cases target with
  | function closure => exact absurd rfl (other closure)
  | _ => exact yields_fail.mpr ⟨rfl, rfl⟩

/-- As a statement, an expression completes normally. -/
theorem settles_normal {after : Store} {action : Nat → Nat → Run Value}
    (settled : Settles action before outcome (after.machine scope none)) :
    Settles action before ((outcome.map Completion.normal).map Completion.value)
      (after.machine scope (pendingAfter (outcome.map .normal))) := by
  cases outcome <;> exact settled

mutual

theorem Evaluates.settles {before after : Store} : Evaluates file scope before node outcome after →
    Settles (fun fuel _ => evaluate file fuel (.expression node)) (before.machine scope none) outcome
      (after.machine scope none)
  | .literal => settles_evaluate (settles_of nofun fun _ _ => .pure)
  | .identifier found =>
    settles_evaluate (settles_of nofun fun _ _ =>
      (yields_lookup_ok.mpr ⟨found, rfl⟩).bind .pure)
  | .unbound absent =>
    settles_evaluate (settles_of nofun fun _ _ =>
      (yields_lookup_error.mpr ⟨absent, rfl, rfl⟩).bind_error)
  | .binary first second =>
    settles_evaluate (first.settles.bind (second.settles.bind
      (settles_of applyBinary_fuelled fun _ _ => yields_settle.mpr ⟨rfl, rfl⟩)))
  | .binaryLeft first => settles_evaluate first.settles.bind_error
  | .binaryRight first second =>
    settles_evaluate (first.settles.bind second.settles.bind_error)
  | .decided first enough =>
    settles_evaluate (first.settles.bind (by
      simp only [if_neg (decidedBy_eq_true.mp enough)]
      exact settles_of nofun fun _ _ => .pure))
  | .undecided first further second =>
    settles_evaluate (first.settles.bind (by
      simp only [if_pos (decidedBy_eq_false.mp further)]
      exact second.settles))
  | .logicalLeft first => settles_evaluate first.settles.bind_error
  | .call called => settles_evaluate called.settles

theorem EvaluatesAll.settles {before after : Store} :
    EvaluatesAll file scope before expressions outcome after →
    Settles (fun fuel _ => evaluateAll (evaluate file fuel) expressions) (before.machine scope none)
      outcome (after.machine scope none)
  | .nil => settles_of nofun fun _ _ => .pure
  | .cons first others =>
    first.settles.bind (others.settles.bind
      (settles_of nofun fun _ _ => .pure))
  | .head first => first.settles.bind_error
  | .tail first others => first.settles.bind others.settles.bind_error

theorem Calls.settles {before after : Store} :
    Calls file scope before span callee arguments outcome after →
    Settles (fun fuel _ => runCall file (evaluate file fuel) span callee arguments)
      (before.machine scope none) outcome (after.machine scope none)
  | .unbound absent =>
    settles_of nofun fun _ _ => (yields_lookup_error.mpr ⟨absent, rfl, rfl⟩).bind_error
  | .arguments found evaluated =>
    (settles_ok fun _ _ => yields_lookup_ok.mpr ⟨found, rfl⟩).bind evaluated.settles.bind_error
  | .notAFunction found evaluated other =>
    (settles_ok fun _ _ => yields_lookup_ok.mpr ⟨found, rfl⟩).bind
      (evaluated.settles.bind (settles_of nofun fun _ _ => yields_other other))
  | .body found evaluated executed =>
    (settles_ok fun _ _ => yields_lookup_ok.mpr ⟨found, rfl⟩).bind
      (evaluated.settles.bind
        ((settles_ok fun _ _ => yields_newScope.mpr ⟨rfl, rfl⟩).bind
          ((settles_ok fun _ _ => yields_bindParameters ..).bind
            (settles_takeReturn executed.settles))))

theorem Executes.settles {before after : Store} : Executes file scope before node outcome after →
    Settles (fun fuel _ => evaluate file fuel (.statement node)) (before.machine scope none)
      (outcome.map Completion.value) (after.machine scope (pendingAfter outcome))
  | .declare evaluated =>
    settles_evaluate (evaluated.settles.bind (settles_of nofun fun _ _ =>
      Yields.get.bind ((yields_declare.mpr ⟨rfl, rfl⟩).bind
        .pure)))
  | .declareFails evaluated => settles_evaluate evaluated.settles.bind_error
  | .assign evaluated found =>
    settles_evaluate (evaluated.settles.bind (settles_of nofun fun _ _ =>
      (yields_lookup_ok.mpr ⟨found, rfl⟩).bind ((yields_declare.mpr ⟨rfl, rfl⟩).bind
        .pure)))
  | .assignUnbound evaluated absent =>
    settles_evaluate (evaluated.settles.bind (settles_of nofun fun _ _ =>
      (yields_lookup_error.mpr ⟨absent, rfl, rfl⟩).bind_error))
  | .assignFails evaluated => settles_evaluate evaluated.settles.bind_error
  | .block executed =>
    settles_evaluate ((settles_ok fun _ _ => .get).bind
      ((settles_ok fun _ _ => yields_newScope.mpr ⟨rfl, rfl⟩).bind executed.settles.within))
  | .consequent tested holds executed =>
    settles_evaluate (tested.settles.bind (by
      simp only [if_pos holds]
      exact executed.settles))
  | .alternate tested fails executed =>
    settles_evaluate (tested.settles.bind (by
      simp only [fails, Bool.false_eq_true, if_false]
      exact executed.settles))
  | .noAlternate tested fails =>
    settles_evaluate (tested.settles.bind (by
      simp only [fails, Bool.false_eq_true, if_false]
      exact settles_of nofun fun _ _ => .pure))
  | .branchFails tested => settles_evaluate tested.settles.bind_error
  | .loop looped => settles_loop looped.settles
  | .function made => by
    cases made
    exact settles_evaluate (settles_of nofun fun _ _ =>
      Yields.get.bind (Yields.set.bind
        (Yields.modify.bind .pure)))
  | .giveBack evaluated =>
    settles_evaluate (evaluated.settles.bind (settles_of nofun fun _ _ =>
      Yields.modify.bind .pure))
  | .giveBackFails evaluated => settles_evaluate evaluated.settles.bind_error
  | .print evaluated shown =>
    settles_evaluate (evaluated.settles.bind (settles_of nofun fun _ _ =>
      (yields_settle.mpr ⟨shown.symm, rfl⟩).bind (Yields.modify.bind
        .pure)))
  | .printUnshown evaluated unshown =>
    settles_evaluate (evaluated.settles.bind
      (settles_of (fault_fuelled (unshown ▸ shown_fuelled)) fun _ _ =>
        (yields_settle.mpr ⟨unshown.symm, rfl⟩).bind_error))
  | .printFails evaluated => settles_evaluate evaluated.settles.bind_error
  | .importFile => settles_evaluate (settles_of nofun fun _ _ => yields_fail.mpr ⟨rfl, rfl⟩)
  | .call called => settles_evaluate (settles_normal called.settles)

theorem ExecutesAll.settles {before after : Store} :
    ExecutesAll file scope before previous statements outcome after →
    Settles (fun fuel _ => runStatements (evaluate file fuel) previous statements)
      (before.machine scope none) (outcome.map Completion.value)
      (after.machine scope (pendingAfter outcome))
  | .nil => settles_of nofun fun _ _ => .pure
  | .next first others =>
    first.settles.bind ((settles_ok fun _ _ => yields_isReturning.mpr ⟨rfl, rfl⟩).bind
      others.settles)
  | .returned first =>
    first.settles.bind (settles_of nofun fun _ _ =>
      (yields_isReturning.mpr ⟨rfl, rfl⟩).bind .pure)
  | .failed first => first.settles.bind_error

theorem Loops.settles {before after : Store} :
    Loops file scope before previous test body outcome after →
    Settles (fun fuel rounds => runLoop (evaluate file fuel) test body rounds previous)
      (before.machine scope none) (outcome.map Completion.value)
      (after.machine scope (pendingAfter outcome))
  | .done tested fails =>
    settles_round (tested.settles.bind (by
      simp only [fails, Bool.false_eq_true, if_false]
      exact settles_of nofun fun _ _ => .pure))
  | .testFails tested => settles_round tested.settles.bind_error
  | .next tested holds round others =>
    settles_round (tested.settles.bind (by
      simp only [holds, if_true]
      exact round.settles.bind ((settles_ok fun _ _ => yields_isReturning.mpr ⟨rfl, rfl⟩).bind
        others.settles)))
  | .returned tested holds round =>
    settles_round (tested.settles.bind (by
      simp only [holds, if_true]
      exact round.settles.bind (settles_of nofun fun _ _ =>
        (yields_isReturning.mpr ⟨rfl, rfl⟩).bind .pure)))
  | .failed tested holds round =>
    settles_round (tested.settles.bind (by
      simp only [holds, if_true]
      exact round.settles.bind_error))

end
end

/-- What a run does to its machine, in terms of the statements of the program. -/
theorem run_succ (machine : Machine) (file : Option String) (fuel : Nat) (program : Program) :
    machine.run file (fuel + 1) program =
      (((runStatements (evaluate file fuel) .undefined program.body).run.run machine).1,
        ((runStatements (evaluate file fuel) .undefined program.body).run.run machine).2.store.machine
          ((runStatements (evaluate file fuel) .undefined program.body).run.run machine).2.scope
          none) :=
  rfl

private theorem runs_of_run {before : Store}
    (run : (before.machine scope none).run file fuel program = (outcome, after))
    (fuelled : outcome ≠ .error .outOfFuel) :
    ∃ final, after = final.machine scope none ∧
      Program.Runs file scope before program outcome final := by
  cases fuel with
  | zero => exact absurd (Prod.mk.inj run).1.symm fuelled
  | succ fuel =>
    rw [run_succ] at run
    obtain ⟨rfl, rfl⟩ := Prod.mk.inj run
    obtain ⟨completed, final, same, ends, executed⟩ :=
      (derivable_evaluate file fuel).runStatements (yields_run _ _) fuelled
    rw [same, ends]
    exact ⟨final, rfl, .statements executed⟩

private theorem run_of_runs {before final : Store}
    (runs : Program.Runs file scope before program outcome final) :
    outcome ≠ .error .outOfFuel ∧ ∃ bound, ∀ fuel, bound ≤ fuel →
      (before.machine scope none).run file fuel program = (outcome, final.machine scope none) := by
  cases runs with
  | statements executed =>
    obtain ⟨fuelled, bound, settled⟩ := executed.settles
    refine ⟨fuelled, bound + 1, fun fuel enough => ?_⟩
    obtain ⟨fuel, rfl⟩ := Nat.exists_eq_add_one.mpr (Nat.lt_of_lt_of_le bound.succ_pos enough)
    have run := settled fuel bound (by omega) (by omega)
    rw [run_succ, run]
    rfl

/-- Fuel decides whether a run comes to its end, never how it ends. -/
theorem run_unique {before : Store}
    (one : (before.machine scope none).run file fuel program = (outcome, after))
    (fuelled : outcome ≠ .error .outOfFuel)
    (two : (before.machine scope none).run file fuel' program = (outcome', after'))
    (fuelled' : outcome' ≠ .error .outOfFuel) : outcome = outcome' ∧ after = after' := by
  obtain ⟨final, rfl, runs⟩ := runs_of_run one fuelled
  obtain ⟨final', rfl, runs'⟩ := runs_of_run two fuelled'
  obtain ⟨_, bound, settled⟩ := run_of_runs runs
  obtain ⟨_, bound', settled'⟩ := run_of_runs runs'
  have first := settled (max bound bound') (Nat.le_max_left ..)
  have second := settled' (max bound bound') (Nat.le_max_right ..)
  exact Prod.mk.inj (first.symm.trans second)

/-- On a machine without a pending return, a program ends with an outcome exactly if the rules
without registers derive it: the same value or fault, the same scopes, the same printed text. The
machine is then back in its scope and no return is pending. -/
theorem Machine.run_iff_runs (machine : Machine) (idle : machine.pending = none)
    (file : Option String) (program : Program) (outcome : Except RunFault Value)
    (after : Machine) :
    (outcome ≠ .error .outOfFuel ∧ ∃ fuel, machine.run file fuel program = (outcome, after)) ↔
      Program.Runs file machine.scope machine.store program outcome after.store ∧
        after.scope = machine.scope ∧ after.pending = none := by
  have start : machine = machine.store.machine machine.scope none := by
    rw [← idle]
    rfl
  constructor
  · rintro ⟨fuelled, fuel, run⟩
    rw [start] at run
    obtain ⟨final, rfl, runs⟩ := runs_of_run run fuelled
    exact ⟨runs, rfl, rfl⟩
  · rintro ⟨runs, sameScope, empty⟩
    obtain ⟨fuelled, bound, settled⟩ := run_of_runs runs
    refine ⟨fuelled, bound, ?_⟩
    rw [start, settled bound (Nat.le_refl bound), ← sameScope, ← empty]
    rfl

/-- The statement after the return is not run, and the block's scope stays behind. -/
theorem Machine.run_iff_runs_block :
    Machine.initial.pending = none ∧
      Program.Runs none globalScope Machine.initial.store
        ⟨default, [.block default [.giveBack default (.literal default (.boolean true)),
          .print default (.literal default (.boolean false))]]⟩
        (.ok (.boolean true)) (Machine.initial.store.enter globalScope) :=
  ⟨rfl, ((Machine.run_iff_runs Machine.initial rfl none _ (.ok (.boolean true))
    ((Machine.initial.store.enter globalScope).machine globalScope none)).mp
      ⟨nofun, 4, rfl⟩).1⟩

end ScriptKit
