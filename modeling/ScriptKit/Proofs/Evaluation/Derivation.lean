import ScriptKit.Proofs.Evaluation.Run

/-!
Whatever the machine does is derivable: from a machine without a pending return, each outcome other
than lack of fuel has a big-step derivation. The scope comes back to what it was, and the slot for a
pending return says whether a statement completed by returning.
-/
namespace ScriptKit

open Run

/-- What a completion leaves in the slot for a pending return. -/
def pendingAfter : Except RunFault Completion → Option Value
  | .ok (.returned value) => some value
  | _ => none

/-- An evaluation of nodes whose outcomes are derivable, unless fuel is lacking. From a machine with
no return pending it comes back to the same scope, and a return is pending only after a statement
that completed with one. -/
structure Derivable (file : Option String) (recur : Node → Run Value) : Prop where
  expression {node : Expression}
      (run : Yields (recur (.expression node)) (before.machine scope none) result final)
      (fuelled : result ≠ .error .outOfFuel) :
    ∃ after, final = after.machine scope none ∧ Evaluates file scope before node result after
  statement {node : Statement}
      (run : Yields (recur (.statement node)) (before.machine scope none) result final)
      (fuelled : result ≠ .error .outOfFuel) :
    ∃ outcome after, result = outcome.map Completion.value ∧
      final = after.machine scope (pendingAfter outcome) ∧
      Executes file scope before node outcome after

theorem decidedBy_eq_false {operator : LogicalOperator} {value : Value} :
    operator.decidedBy value = false ↔ value.isTruthy = (operator == .and) := by
  cases operator with
  | and => simp [LogicalOperator.decidedBy]
  | or => exact Iff.rfl
  | unknown text => exact Iff.rfl

theorem decidedBy_eq_true {operator : LogicalOperator} {value : Value} :
    operator.decidedBy value = true ↔ value.isTruthy ≠ (operator == .and) := by
  rw [ne_eq, ← decidedBy_eq_false, Bool.not_eq_false]

theorem fault_fuelled {α β : Type} {fault : RunFault}
    (fuelled : (.error fault : Except RunFault α) ≠ .error .outOfFuel) :
    (.error fault : Except RunFault β) ≠ .error .outOfFuel := by
  simpa using fuelled

namespace Derivable

variable {file : Option String} {recur : Node → Run Value}

theorem evaluateAll (derivable : Derivable file recur)
    (run : Yields (evaluateAll recur expressions) (before.machine scope none) result final)
    (fuelled : result ≠ .error .outOfFuel) :
    ∃ after, final = after.machine scope none ∧
      EvaluatesAll file scope before expressions result after := by
  induction expressions generalizing before result final with
  | nil =>
    obtain ⟨rfl, rfl⟩ := yields_pure.mp run
    exact ⟨before, rfl, .nil⟩
  | cons expression rest ih =>
    rcases yields_bind.mp run with ⟨value, _, head, run⟩ | ⟨fault, head, rfl⟩
    · obtain ⟨middle, rfl, first⟩ := derivable.expression head nofun
      rcases yields_bind.mp run with ⟨values, _, tail, run⟩ | ⟨fault, tail, rfl⟩
      · obtain ⟨after, rfl, others⟩ := ih tail nofun
        obtain ⟨rfl, rfl⟩ := yields_pure.mp run
        exact ⟨after, rfl, .cons first others⟩
      · obtain ⟨after, rfl, others⟩ := ih tail fuelled
        exact ⟨after, rfl, .tail first others⟩
    · obtain ⟨after, rfl, first⟩ := derivable.expression head (fault_fuelled fuelled)
      exact ⟨after, rfl, .head first⟩

/-- The body of a call, from the new scope up to taking the return out of its slot. -/
theorem runBody {closure : Closure} (derivable : Derivable file recur)
    (found : before.heap.find? scope callee = some (owner, .function closure))
    (evaluated : EvaluatesAll file scope before arguments (.ok values) middle)
    (run : Yields (do
        let inner ← Run.newScope closure.scope
        Run.bindParameters inner closure.parameters values
        let result ← Run.within inner (recur (.statement closure.body))
        takeReturn result) (middle.machine scope none) result final)
    (fuelled : result ≠ .error .outOfFuel) :
    ∃ after, final = after.machine scope none ∧
      Calls file scope before span callee arguments result after := by
  replace run := run.rest (yields_newScope.mpr ⟨rfl, rfl⟩)
  replace run := run.rest (yields_bindParameters ..)
  rcases yields_bind.mp run with ⟨value, _, ran, run⟩ | ⟨fault, ran, rfl⟩
  · obtain ⟨_, inside, rfl⟩ := yields_within.mp ran
    obtain ⟨outcome, after, same, rfl, body⟩ := derivable.statement inside nofun
    obtain ⟨rfl, rfl⟩ := yields_takeReturn.mp run
    refine ⟨after, rfl, ?_⟩
    have called : Calls file scope before span callee arguments _ after :=
      .body found evaluated body
    rcases outcome with fault | ⟨value⟩ | ⟨value⟩ <;> cases same <;> exact called
  · obtain ⟨_, inside, rfl⟩ := yields_within.mp ran
    obtain ⟨outcome, after, same, rfl, body⟩ := derivable.statement inside fuelled
    rcases outcome with fault | ⟨value⟩ | ⟨value⟩ <;> cases same
    exact ⟨after, rfl, .body found evaluated body⟩

theorem runCall (derivable : Derivable file recur)
    (run : Yields (runCall file recur span callee arguments) (before.machine scope none) result
      final) (fuelled : result ≠ .error .outOfFuel) :
    ∃ after, final = after.machine scope none ∧
      Calls file scope before span callee arguments result after := by
  rcases yields_bind.mp run with ⟨⟨owner, target⟩, _, looked, run⟩ | ⟨fault, looked, rfl⟩
  · obtain ⟨found, rfl⟩ := yields_lookup_ok.mp looked
    rcases yields_bind.mp run with ⟨values, _, ran, run⟩ | ⟨fault, ran, rfl⟩
    · obtain ⟨middle, rfl, evaluated⟩ := derivable.evaluateAll ran nofun
      cases target with
      | function closure => exact derivable.runBody found evaluated run fuelled
      | _ =>
        obtain ⟨rfl, rfl⟩ := yields_fail.mp run
        exact ⟨middle, rfl, .notAFunction found evaluated nofun⟩
    · obtain ⟨after, rfl, evaluated⟩ := derivable.evaluateAll ran (fault_fuelled fuelled)
      exact ⟨after, rfl, .arguments found evaluated⟩
  · obtain ⟨absent, rfl, rfl⟩ := yields_lookup_error.mp looked
    exact ⟨before, rfl, .unbound absent⟩

theorem evaluateExpression {node : Expression} (derivable : Derivable file recur)
    (run : Yields (evaluateExpression file recur node) (before.machine scope none) result final)
    (fuelled : result ≠ .error .outOfFuel) :
    ∃ after, final = after.machine scope none ∧ Evaluates file scope before node result after := by
  cases node with
  | literal span value =>
    obtain ⟨rfl, rfl⟩ := yields_pure.mp run
    exact ⟨before, rfl, .literal⟩
  | identifier span name =>
    rcases yields_bind.mp run with ⟨⟨owner, value⟩, _, looked, run⟩ | ⟨fault, looked, rfl⟩
    · obtain ⟨found, rfl⟩ := yields_lookup_ok.mp looked
      obtain ⟨rfl, rfl⟩ := yields_pure.mp run
      exact ⟨before, rfl, .identifier found⟩
    · obtain ⟨absent, rfl, rfl⟩ := yields_lookup_error.mp looked
      exact ⟨before, rfl, .unbound absent⟩
  | binary span operator left right =>
    rcases yields_bind.mp run with ⟨value, _, ran, run⟩ | ⟨fault, ran, rfl⟩
    · obtain ⟨middle, rfl, first⟩ := derivable.expression ran nofun
      rcases yields_bind.mp run with ⟨other, _, ran', run⟩ | ⟨fault, ran', rfl⟩
      · obtain ⟨after, rfl, second⟩ := derivable.expression ran' nofun
        obtain ⟨rfl, rfl⟩ := yields_settle.mp run
        exact ⟨after, rfl, .binary first second⟩
      · obtain ⟨after, rfl, second⟩ := derivable.expression ran' fuelled
        exact ⟨after, rfl, .binaryRight first second⟩
    · obtain ⟨after, rfl, first⟩ := derivable.expression ran fuelled
      exact ⟨after, rfl, .binaryLeft first⟩
  | logical span operator left right =>
    rcases yields_bind.mp run with ⟨value, _, ran, run⟩ | ⟨fault, ran, rfl⟩
    · obtain ⟨middle, rfl, first⟩ := derivable.expression ran nofun
      split at run
      · obtain ⟨after, rfl, second⟩ := derivable.expression run fuelled
        exact ⟨after, rfl, .undecided first (decidedBy_eq_false.mpr (by assumption)) second⟩
      · obtain ⟨rfl, rfl⟩ := yields_pure.mp run
        exact ⟨middle, rfl, .decided first (decidedBy_eq_true.mpr (by assumption))⟩
    · obtain ⟨after, rfl, first⟩ := derivable.expression ran fuelled
      exact ⟨after, rfl, .logicalLeft first⟩
  | call span callee arguments =>
    obtain ⟨after, rfl, called⟩ := derivable.runCall run fuelled
    exact ⟨after, rfl, .call called⟩

/-- After a statement the slot is looked at: it fails, it returns, or what follows goes on with an
empty slot. -/
theorem checked {node : Statement} {next : Value → Run Value} (derivable : Derivable file recur)
    (run : Yields (do
        let value ← recur (.statement node)
        if ← isReturning then return value else next value) (before.machine scope none) result
      final) (fuelled : result ≠ .error .outOfFuel) :
    (∃ fault after, result = .error fault ∧ final = after.machine scope none ∧
      Executes file scope before node (.error fault) after) ∨
    (∃ value after, result = .ok value ∧ final = after.machine scope (some value) ∧
      Executes file scope before node (.ok (.returned value)) after) ∨
    ∃ value middle, Yields (next value) (middle.machine scope none) result final ∧
      Executes file scope before node (.ok (.normal value)) middle := by
  rcases yields_bind.mp run with ⟨value, _, ran, run⟩ | ⟨fault, ran, rfl⟩
  · obtain ⟨outcome, middle, same, rfl, executed⟩ := derivable.statement ran nofun
    replace run := run.rest (yields_isReturning.mpr ⟨rfl, rfl⟩)
    rcases outcome with fault | ⟨value⟩ | ⟨value⟩ <;> cases same
    · exact .inr (.inr ⟨value, middle, run, executed⟩)
    · obtain ⟨rfl, rfl⟩ := yields_pure.mp run
      exact .inr (.inl ⟨value, middle, rfl, rfl, executed⟩)
  · obtain ⟨outcome, after, same, rfl, executed⟩ := derivable.statement ran fuelled
    rcases outcome with fault | ⟨value⟩ | ⟨value⟩ <;> cases same
    exact .inl ⟨fault, after, rfl, rfl, executed⟩

theorem runStatements (derivable : Derivable file recur)
    (run : Yields (runStatements recur previous statements) (before.machine scope none) result
      final) (fuelled : result ≠ .error .outOfFuel) :
    ∃ outcome after, result = outcome.map Completion.value ∧
      final = after.machine scope (pendingAfter outcome) ∧
      ExecutesAll file scope before previous statements outcome after := by
  induction statements generalizing before previous with
  | nil =>
    obtain ⟨rfl, rfl⟩ := yields_pure.mp run
    exact ⟨.ok (.normal previous), before, rfl, rfl, .nil⟩
  | cons statement rest ih =>
    rcases derivable.checked run fuelled with ⟨fault, after, rfl, rfl, first⟩ |
      ⟨value, after, rfl, rfl, first⟩ | ⟨value, middle, run, first⟩
    · exact ⟨.error fault, after, rfl, rfl, .failed first⟩
    · exact ⟨.ok (.returned value), after, rfl, rfl, .returned first⟩
    · obtain ⟨outcome, after, rfl, rfl, others⟩ := ih run
      exact ⟨outcome, after, rfl, rfl, .next first others⟩

theorem runLoop (derivable : Derivable file recur)
    (run : Yields (runLoop recur test body rounds previous) (before.machine scope none) result
      final) (fuelled : result ≠ .error .outOfFuel) :
    ∃ outcome after, result = outcome.map Completion.value ∧
      final = after.machine scope (pendingAfter outcome) ∧
      Loops file scope before previous test body outcome after := by
  induction rounds generalizing before previous with
  | zero => exact absurd (yields_fail.mp run).1 fuelled
  | succ rounds ih =>
    rcases yields_bind.mp run with ⟨condition, _, ran, run⟩ | ⟨fault, ran, rfl⟩
    · obtain ⟨entered, rfl, tested⟩ := derivable.expression ran nofun
      split at run
      · rename_i holds
        rcases derivable.checked run fuelled with ⟨fault, after, rfl, rfl, round⟩ |
          ⟨value, after, rfl, rfl, round⟩ | ⟨value, middle, run, round⟩
        · exact ⟨.error fault, after, rfl, rfl, .failed tested holds round⟩
        · exact ⟨.ok (.returned value), after, rfl, rfl, .returned tested holds round⟩
        · obtain ⟨outcome, after, rfl, rfl, others⟩ := ih run
          exact ⟨outcome, after, rfl, rfl, .next tested holds round others⟩
      · rename_i fails
        obtain ⟨rfl, rfl⟩ := yields_pure.mp run
        exact ⟨.ok (.normal previous), entered, rfl, rfl, .done tested (by simpa using fails)⟩
    · obtain ⟨after, rfl, tested⟩ := derivable.expression ran fuelled
      exact ⟨.error fault, after, rfl, rfl, .testFails tested⟩

theorem runStatement {node : Statement} (derivable : Derivable file recur)
    (run : Yields (runStatement file fuel recur node) (before.machine scope none) result final)
    (fuelled : result ≠ .error .outOfFuel) :
    ∃ outcome after, result = outcome.map Completion.value ∧
      final = after.machine scope (pendingAfter outcome) ∧
      Executes file scope before node outcome after := by
  cases node with
  | declare span name value =>
    rcases yields_bind.mp run with ⟨result, _, ran, run⟩ | ⟨fault, ran, rfl⟩
    · obtain ⟨after, rfl, evaluated⟩ := derivable.expression ran nofun
      replace run := run.rest .get
      obtain ⟨rfl, rfl⟩ := run.unique <|
        (yields_declare.mpr ⟨rfl, rfl⟩).bind .pure
      exact ⟨.ok (.normal result), _, rfl, rfl, .declare evaluated⟩
    · obtain ⟨after, rfl, evaluated⟩ := derivable.expression ran fuelled
      exact ⟨.error fault, after, rfl, rfl, .declareFails evaluated⟩
  | assign span name value =>
    rcases yields_bind.mp run with ⟨result, _, ran, run⟩ | ⟨fault, ran, rfl⟩
    · obtain ⟨after, rfl, evaluated⟩ := derivable.expression ran nofun
      rcases yields_bind.mp run with ⟨⟨owner, old⟩, _, looked, run⟩ | ⟨fault, looked, rfl⟩
      · obtain ⟨found, rfl⟩ := yields_lookup_ok.mp looked
        obtain ⟨rfl, rfl⟩ := run.unique <|
          (yields_declare.mpr ⟨rfl, rfl⟩).bind .pure
        exact ⟨.ok (.normal result), _, rfl, rfl, .assign evaluated found⟩
      · obtain ⟨absent, rfl, rfl⟩ := yields_lookup_error.mp looked
        exact ⟨.error _, after, rfl, rfl, .assignUnbound evaluated absent⟩
    · obtain ⟨after, rfl, evaluated⟩ := derivable.expression ran fuelled
      exact ⟨.error fault, after, rfl, rfl, .assignFails evaluated⟩
  | block span body =>
    replace run := run.rest .get
    replace run := run.rest (yields_newScope.mpr ⟨rfl, rfl⟩)
    obtain ⟨_, inside, rfl⟩ := yields_within.mp run
    obtain ⟨outcome, after, rfl, rfl, executed⟩ := derivable.runStatements inside fuelled
    exact ⟨outcome, after, rfl, rfl, .block executed⟩
  | branch span test consequent alternate =>
    rcases yields_bind.mp run with ⟨condition, _, ran, run⟩ | ⟨fault, ran, rfl⟩
    · obtain ⟨middle, rfl, tested⟩ := derivable.expression ran nofun
      split at run
      · rename_i holds
        obtain ⟨outcome, after, rfl, rfl, executed⟩ := derivable.statement run fuelled
        exact ⟨outcome, after, rfl, rfl, .consequent tested holds executed⟩
      · rename_i fails
        replace fails := Bool.eq_false_iff.mpr fails
        cases alternate with
        | some other =>
          obtain ⟨outcome, after, rfl, rfl, executed⟩ := derivable.statement run fuelled
          exact ⟨outcome, after, rfl, rfl, .alternate tested fails executed⟩
        | none =>
          obtain ⟨rfl, rfl⟩ := yields_pure.mp run
          exact ⟨.ok (.normal .undefined), middle, rfl, rfl, .noAlternate tested fails⟩
    · obtain ⟨after, rfl, tested⟩ := derivable.expression ran fuelled
      exact ⟨.error fault, after, rfl, rfl, .branchFails tested⟩
  | loop span test body =>
    obtain ⟨outcome, after, rfl, rfl, looped⟩ := derivable.runLoop run fuelled
    exact ⟨outcome, after, rfl, rfl, .loop looped⟩
  | function span name parameters body =>
    replace run := run.rest .get
    replace run := run.rest .set
    obtain ⟨rfl, rfl⟩ := run.unique <|
      Yields.modify.bind .pure
    exact ⟨.ok (.normal _), _, rfl, rfl, .function rfl⟩
  | giveBack span argument =>
    rcases yields_bind.mp run with ⟨value, _, ran, run⟩ | ⟨fault, ran, rfl⟩
    · obtain ⟨after, rfl, evaluated⟩ := derivable.expression ran nofun
      obtain ⟨rfl, rfl⟩ := run.unique <|
        Yields.modify.bind .pure
      exact ⟨.ok (.returned value), after, rfl, rfl, .giveBack evaluated⟩
    · obtain ⟨after, rfl, evaluated⟩ := derivable.expression ran fuelled
      exact ⟨.error fault, after, rfl, rfl, .giveBackFails evaluated⟩
  | print span argument =>
    rcases yields_bind.mp run with ⟨value, _, ran, run⟩ | ⟨fault, ran, rfl⟩
    · obtain ⟨after, rfl, evaluated⟩ := derivable.expression ran nofun
      rcases yields_bind.mp run with ⟨text, _, written, run⟩ | ⟨fault, written, rfl⟩
      · obtain ⟨shown, rfl⟩ := yields_settle.mp written
        obtain ⟨rfl, rfl⟩ := run.unique <|
          Yields.modify.bind .pure
        exact ⟨.ok (.normal value), after.print text, rfl, rfl, .print evaluated shown.symm⟩
      · obtain ⟨unshown, rfl⟩ := yields_settle.mp written
        exact ⟨.error fault, after, rfl, rfl, .printUnshown evaluated unshown.symm⟩
    · obtain ⟨after, rfl, evaluated⟩ := derivable.expression ran fuelled
      exact ⟨.error fault, after, rfl, rfl, .printFails evaluated⟩
  | importFile span path =>
    obtain ⟨rfl, rfl⟩ := yields_fail.mp run
    exact ⟨.error _, before, rfl, rfl, .importFile⟩
  | call span callee arguments =>
    obtain ⟨after, rfl, called⟩ := derivable.runCall run fuelled
    refine ⟨result.map .normal, after, ?_, ?_, .call called⟩ <;> cases result <;> rfl

end Derivable

/-- The induction is on the fuel: one node is derivable when the nodes inside it are. -/
theorem derivable_evaluate (file : Option String) (fuel : Nat) :
    Derivable file (evaluate file fuel) := by
  induction fuel with
  | zero =>
    constructor
    · intro _ _ _ _ _ run fuelled
      exact absurd (yields_fail.mp run).1 fuelled
    · intro _ _ _ _ _ run fuelled
      exact absurd (yields_fail.mp run).1 fuelled
  | succ fuel ih =>
    constructor
    · intro _ _ _ _ _ run fuelled
      exact ih.evaluateExpression run fuelled
    · intro _ _ _ _ _ run fuelled
      exact ih.runStatement run fuelled

end ScriptKit
