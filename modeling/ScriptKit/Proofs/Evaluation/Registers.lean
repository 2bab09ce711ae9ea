import ScriptKit.Proofs.Evaluation.Run

/-!
The two registers of the machine, the current scope and the slot for a pending return, survive every
exit. Each node is entered with an empty slot, comes back to its scope, and leaves a return pending
only as a statement that completed.

What nested calls are entered with is observed by an evaluator that watches them: a nested call with
a return pending is replaced by an alarm.
-/
namespace ScriptKit

open Run

/-- A call is an expression also where it stands as a statement. -/
def Node.isExpression : Node → Bool
  | .expression _ => true
  | .statement (.call ..) => true
  | _ => false

/-- Evaluates a node if no return is pending, and raises the alarm otherwise. -/
def watched (alarm recur : Node → Run Value) (node : Node) : Run Value := fun machine =>
  if machine.pending.isNone then recur node machine else alarm node machine

/-- The evaluation of a node in which all nested calls, at any depth, are watched. -/
def evaluateWatched (file : Option String) (alarm : Node → Run Value) : Nat → Node → Run Value
  | 0, _ => Run.fail .outOfFuel
  | fuel + 1, node =>
    evaluateStep file fuel (watched alarm (evaluateWatched file alarm fuel)) node

/-- From a machine without a pending return, the plain action comes back to its scope, a return is
pending only if it succeeds and is not quiet, and the other action does the same. -/
structure Kept {α : Type} (quiet : Bool) (other plain : Run α) : Prop where
  same (idle : before.pending = none) (run : Yields plain before result after) :
    Yields other before result after
  scope (idle : before.pending = none) (run : Yields plain before result after) :
    after.scope = before.scope
  empty (idle : before.pending = none) (run : Yields plain before result after)
      (ends : quiet = true ∨ ∃ fault, result = .error fault) :
    after.pending = none

namespace Kept

variable {α β : Type}

/-- An action that touches no register. -/
theorem of_frame {action : Run α}
    (frame : ∀ before result after, Yields action before result after →
      after.scope = before.scope ∧ after.pending = before.pending) : Kept quiet action action := by
  refine ⟨fun _ run => run, fun _ run => (frame _ _ _ run).1, ?_⟩
  intro before result after idle run _
  exact (frame before result after run).2.trans idle

theorem pure (value : α) : Kept quiet (pure value : Run α) (pure value) := by
  refine of_frame fun before result after run => ?_
  obtain ⟨_, rfl⟩ := yields_pure.mp run
  exact ⟨rfl, rfl⟩

theorem fail (fault : RunFault) : Kept quiet (fail fault : Run α) (fail fault) := by
  refine of_frame fun before result after run => ?_
  obtain ⟨_, rfl⟩ := yields_fail.mp run
  exact ⟨rfl, rfl⟩

theorem get : Kept quiet (get : Run Machine) get := by
  refine of_frame fun before result after run => ?_
  obtain ⟨_, rfl⟩ := yields_get.mp run
  exact ⟨rfl, rfl⟩

theorem settle (outcome : Except RunFault α) : Kept quiet (settle outcome) (settle outcome) := by
  cases outcome with
  | ok value => exact .pure value
  | error fault => exact .fail fault

theorem print (text : String) :
    Kept quiet (modify fun machine : Machine => { machine with output := machine.output ++ text ++ "\n" })
      (modify fun machine : Machine => { machine with output := machine.output ++ text ++ "\n" } :
        Run Unit) := by
  refine of_frame fun before result after run => ?_
  obtain ⟨_, rfl⟩ := yields_modify.mp run
  exact ⟨rfl, rfl⟩

theorem declare (owner : ScopeId) (name : String) (value : Value) :
    Kept quiet (declare owner name value) (declare owner name value) := by
  refine of_frame fun before result after run => ?_
  obtain ⟨_, rfl⟩ := yields_modify.mp run
  exact ⟨rfl, rfl⟩

theorem newScope (parent : ScopeId) : Kept quiet (newScope parent) (newScope parent) := by
  refine of_frame fun before result after run => ?_
  obtain ⟨_, rfl⟩ := run.unique (yields_run (Run.newScope parent) before)
  exact ⟨rfl, rfl⟩

/-- A sequence whose first part leaves nothing pending. -/
theorem bind {other plain : Run α} {next next' : α → Run β} (first : Kept true other plain)
    (rest : ∀ value, Kept quiet (next value) (next' value)) :
    Kept quiet (other >>= next) (plain >>= next') := by
  constructor
  · intro before result after idle run
    rcases yields_bind.mp run with ⟨value, middle, ran, run⟩ | ⟨fault, ran, rfl⟩
    · have empty := first.empty idle ran (.inl rfl)
      exact (first.same idle ran).bind ((rest value).same empty run)
    · exact (first.same idle ran).bind_error
  · intro before result after idle run
    rcases yields_bind.mp run with ⟨value, middle, ran, run⟩ | ⟨fault, ran, rfl⟩
    · have empty := first.empty idle ran (.inl rfl)
      exact ((rest value).scope empty run).trans (first.scope idle ran)
    · exact first.scope idle ran
  · intro before result after idle run ends
    rcases yields_bind.mp run with ⟨value, middle, ran, run⟩ | ⟨fault, ran, rfl⟩
    · exact (rest value).empty (first.empty idle ran (.inl rfl)) run ends
    · exact first.empty idle ran (.inl rfl)

theorem lookup (file : Option String) (span : Span) (name : String) :
    Kept quiet (lookup file span name) (lookup file span name) := by
  refine get.bind fun machine => ?_
  split
  · exact .pure _
  · exact .fail _

theorem bindParameters (scope : ScopeId) (parameters : List String) (values : List Value) :
    Kept quiet (bindParameters scope parameters values) (bindParameters scope parameters values) := by
  induction parameters generalizing values with
  | nil =>
    rw [Run.bindParameters]
    exact .pure ()
  | cons name names ih =>
    cases values with
    | nil => exact (declare scope name .undefined).bind fun _ => ih []
    | cons value values => exact (declare scope name value).bind fun _ => ih values

theorem within {other plain : Run α} (inner : ScopeId) (kept : Kept quiet other plain) :
    Kept quiet (within inner other) (within inner plain) := by
  have split {before final : Machine} {result : Except RunFault α} {action : Run α} :
      Yields (Run.within inner action) before result final ↔
        ∃ after, Yields action { before with scope := inner } result after ∧
          final = { after with scope := before.scope } := by
    change Yields _ (before.store.machine before.scope before.pending) result final ↔ _
    exact yields_within
  constructor
  · intro before result after idle run
    obtain ⟨reached, inside, rfl⟩ := split.mp run
    refine split.mpr ⟨reached, kept.same ?_ inside, rfl⟩
    exact idle
  · intro before result after idle run
    obtain ⟨reached, inside, rfl⟩ := split.mp run
    rfl
  · intro before result after idle run ends
    obtain ⟨reached, inside, rfl⟩ := split.mp run
    have entered : ({ before with scope := inner } : Machine).pending = none := idle
    have left : reached.pending = none := kept.empty entered inside ends
    exact left

/-- After a statement the slot is looked at: either the statement was the last, or what follows
starts with an empty slot. -/
theorem checked_cases {action : Run Value} {next : Value → Run Value} :
    Yields (do let value ← action; if ← isReturning then return value else next value) before result
      after ↔
    (Yields action before result after ∧ (after.pending = none → ∃ fault, result = .error fault)) ∨
    ∃ value middle, Yields action before (.ok value) middle ∧ middle.pending = none ∧
      Yields (next value) middle result after := by
  constructor
  · intro run
    rcases yields_bind.mp run with ⟨value, middle, ran, run⟩ | ⟨fault, ran, rfl⟩
    · replace run := run.rest (yields_isReturning.mpr ⟨rfl, rfl⟩)
      cases slot : middle.pending with
      | none =>
        rw [slot] at run
        exact .inr ⟨value, middle, ran, slot, run⟩
      | some returned =>
        rw [slot] at run
        obtain ⟨rfl, rfl⟩ := yields_pure.mp run
        exact .inl ⟨ran, fun empty => absurd (slot.symm.trans empty) nofun⟩
    · exact .inl ⟨ran, fun _ => ⟨fault, rfl⟩⟩
  · rintro (⟨ran, filled⟩ | ⟨value, middle, ran, empty, run⟩)
    · cases result with
      | error fault => exact ran.bind_error
      | ok value =>
        refine ran.bind ((yields_isReturning.mpr ⟨rfl, rfl⟩).bind ?_)
        cases slot : after.pending with
        | none => exact absurd (filled slot) (by simp)
        | some returned => exact .pure
    · refine ran.bind ((yields_isReturning.mpr ⟨rfl, rfl⟩).bind ?_)
      rw [empty]
      exact run

theorem checked {other plain : Run Value} {next next' : Value → Run Value}
    (first : Kept false other plain) (rest : ∀ value, Kept false (next value) (next' value)) :
    Kept false (do let value ← other; if ← isReturning then return value else next value)
      (do let value ← plain; if ← isReturning then return value else next' value) := by
  constructor
  · intro before result after idle run
    rcases checked_cases.mp run with ⟨ran, filled⟩ | ⟨value, middle, ran, empty, run⟩
    · exact checked_cases.mpr (.inl ⟨first.same idle ran, filled⟩)
    · exact checked_cases.mpr
        (.inr ⟨value, middle, first.same idle ran, empty, (rest value).same empty run⟩)
  · intro before result after idle run
    rcases checked_cases.mp run with ⟨ran, _⟩ | ⟨value, middle, ran, empty, run⟩
    · exact first.scope idle ran
    · exact ((rest value).scope empty run).trans (first.scope idle ran)
  · intro before result after idle run ends
    rcases checked_cases.mp run with ⟨ran, _⟩ | ⟨value, middle, ran, empty, run⟩
    · exact first.empty idle ran ends
    · exact (rest value).empty empty run ends

/-- The nearest call empties the slot. -/
theorem taken {other plain : Run Value} (kept : Kept false other plain) :
    Kept true (other >>= takeReturn) (plain >>= takeReturn) := by
  have emptied {value : Value} {middle after : Machine} {result : Except RunFault Value}
      (run : Yields (takeReturn value) middle result after) :
      after.scope = middle.scope ∧ after.pending = none := by
    change Yields _ (middle.store.machine middle.scope middle.pending) result after at run
    obtain ⟨_, rfl⟩ := yields_takeReturn.mp run
    exact ⟨rfl, rfl⟩
  constructor
  · intro before result after idle run
    rcases yields_bind.mp run with ⟨value, middle, ran, run⟩ | ⟨fault, ran, rfl⟩
    · exact (kept.same idle ran).bind run
    · exact (kept.same idle ran).bind_error
  · intro before result after idle run
    rcases yields_bind.mp run with ⟨value, middle, ran, run⟩ | ⟨fault, ran, rfl⟩
    · exact (emptied run).1.trans (kept.scope idle ran)
    · exact kept.scope idle ran
  · intro before result after idle run _
    rcases yields_bind.mp run with ⟨value, middle, ran, run⟩ | ⟨fault, ran, rfl⟩
    · exact (emptied run).2
    · exact kept.empty idle ran (.inr ⟨fault, rfl⟩)

/-- A return fills the slot and cannot fail any more. -/
theorem filled (value : Value) :
    Kept false
      (do modify fun machine : Machine => { machine with pending := some value }; return value)
      (do modify fun machine : Machine => { machine with pending := some value }; return value :
        Run Value) := by
  have shape {before after : Machine} {result : Except RunFault Value}
      (run : Yields (do
        modify fun machine : Machine => { machine with pending := some value }; return value :
          Run Value) before result after) :
      result = .ok value ∧ after = { before with pending := some value } :=
    run.unique (Yields.modify.bind .pure)
  refine ⟨fun _ run => run, ?_, ?_⟩
  · intro before result after idle run
    obtain ⟨_, rfl⟩ := shape run
    rfl
  · intro before result after idle run ends
    obtain ⟨rfl, _⟩ := shape run
    simp at ends

end Kept

section
variable {other plain : Node → Run Value}

/-- The nodes inside are kept, expressions quietly. -/
abbrev AllKept (other plain : Node → Run Value) : Prop :=
  ∀ node, Kept node.isExpression (other node) (plain node)

theorem AllKept.statement (all : AllKept other plain) (node : Statement) :
    Kept false (other (.statement node)) (plain (.statement node)) := by
  obtain ⟨same, scope, empty⟩ := all (.statement node)
  refine ⟨same, scope, fun idle run ends => empty idle run (.inr ?_)⟩
  simpa using ends

theorem AllKept.evaluateAll (all : AllKept other plain) (expressions : List Expression) :
    Kept true (evaluateAll other expressions) (evaluateAll plain expressions) := by
  induction expressions with
  | nil => exact .pure []
  | cons expression rest ih =>
    exact (all (.expression expression)).bind fun _ => ih.bind fun _ => .pure _

theorem AllKept.runCall (all : AllKept other plain) (file : Option String) (span : Span)
    (callee : String) (arguments : List Expression) :
    Kept true (runCall file other span callee arguments)
      (runCall file plain span callee arguments) := by
  refine (Kept.lookup file span callee).bind fun found => ?_
  refine (all.evaluateAll arguments).bind fun values => ?_
  obtain ⟨_, target⟩ := found
  cases target with
  | function closure =>
    refine (Kept.newScope closure.scope).bind fun scope => ?_
    refine (Kept.bindParameters scope closure.parameters values).bind fun _ => ?_
    -- The body may leave a return pending; it is taken before the call comes back.
    exact ((all.statement closure.body).within scope).taken
  | _ => exact .fail _

theorem AllKept.evaluateExpression (all : AllKept other plain) (file : Option String)
    (node : Expression) :
    Kept true (evaluateExpression file other node) (evaluateExpression file plain node) := by
  cases node with
  | literal span value => exact .pure _
  | identifier span name => exact (Kept.lookup file span name).bind fun _ => .pure _
  | binary span operator left right =>
    refine (all (.expression left)).bind fun first => ?_
    exact (all (.expression right)).bind fun second => .settle _
  | logical span operator left right =>
    refine (all (.expression left)).bind fun first => ?_
    split
    · exact all (.expression right)
    · exact .pure first
  | call span callee arguments => exact all.runCall file span callee arguments

theorem AllKept.runStatements (all : AllKept other plain) (statements : List Statement)
    (previous : Value) :
    Kept false (runStatements other previous statements)
      (runStatements plain previous statements) := by
  induction statements generalizing previous with
  | nil => exact .pure previous
  | cons statement rest ih =>
    exact (all.statement statement).checked ih

theorem AllKept.runLoop (all : AllKept other plain) (test : Expression) (body : Statement)
    (rounds : Nat) (previous : Value) :
    Kept false (runLoop other test body rounds previous)
      (runLoop plain test body rounds previous) := by
  induction rounds generalizing previous with
  | zero => exact .fail .outOfFuel
  | succ rounds ih =>
    refine (all (.expression test)).bind fun condition => ?_
    split
    · exact (all.statement body).checked ih
    · exact .pure previous

theorem AllKept.runStatement (all : AllKept other plain) (file : Option String) (fuel : Nat)
    (node : Statement) :
    Kept (Node.statement node).isExpression (runStatement file fuel other node)
      (runStatement file fuel plain node) := by
  cases node with
  | declare span name value =>
    refine (all (.expression value)).bind fun result => Kept.get.bind fun machine => ?_
    exact (Kept.declare machine.scope name result).bind fun _ => .pure result
  | assign span name value =>
    refine (all (.expression value)).bind fun result => ?_
    refine (Kept.lookup file span name).bind fun found => ?_
    exact (Kept.declare found.1 name result).bind fun _ => .pure result
  | block span body =>
    refine Kept.get.bind fun machine => (Kept.newScope machine.scope).bind fun scope => ?_
    exact (all.runStatements body .undefined).within scope
  | branch span test consequent alternate =>
    refine (all (.expression test)).bind fun condition => ?_
    split
    · exact all.statement consequent
    · cases alternate with
      | some alternate => exact all.statement alternate
      | none => exact .pure Value.undefined
  | loop span test body => exact all.runLoop test body fuel .undefined
  | function span name parameters body =>
    refine Kept.of_frame fun before result after run => ?_
    obtain ⟨_, rfl⟩ := run.unique (yields_run _ before)
    exact ⟨rfl, rfl⟩
  | giveBack span argument => exact (all (.expression argument)).bind Kept.filled
  | print span argument =>
    refine (all (.expression argument)).bind fun value => (Kept.settle value.shown).bind fun text => ?_
    exact (Kept.print text).bind fun _ => .pure value
  | importFile span path => exact .fail _
  | call span callee arguments => exact all.runCall file span callee arguments

/-- One node is kept when the nodes inside it are. -/
theorem AllKept.evaluateStep (all : AllKept other plain) (file : Option String) (fuel : Nat) :
    AllKept (evaluateStep file fuel other) (evaluateStep file fuel plain) := by
  intro node
  cases node with
  | expression value => exact all.evaluateExpression file value
  | statement value => exact all.runStatement file fuel value
  | program value => exact all.runStatements value.body .undefined
  | span value => exact .fail .unhandledNode

end

private theorem allKept_watched (alarm : Node → Run Value) (all : AllKept other plain) :
    AllKept (watched alarm other) plain := by
  intro node
  obtain ⟨same, scope, empty⟩ := all node
  refine ⟨fun idle run => ?_, scope, empty⟩
  have quiet : watched alarm other node _ = other node _ := if_pos (by rw [idle]; rfl)
  exact quiet.trans (same idle run)

/-- The induction is on the fuel. -/
theorem allKept_evaluate (file : Option String) (alarm : Node → Run Value) (fuel : Nat) :
    AllKept (evaluateWatched file alarm fuel) (evaluate file fuel) := by
  induction fuel with
  | zero => exact fun _ => .fail .outOfFuel
  | succ fuel ih =>
    exact (allKept_watched alarm ih).evaluateStep file fuel

/-- The machine after some runs, however each of them ended. -/
def Machine.afterRuns (machine : Machine) (file : Option String) (runs : List (Nat × Program)) :
    Machine :=
  runs.foldl (fun machine step => (machine.run file step.1 step.2).2) machine

theorem Machine.afterRuns_registers {machine : Machine} (idle : machine.pending = none)
    (file : Option String) (runs : List (Nat × Program)) :
    (machine.afterRuns file runs).scope = machine.scope ∧
      (machine.afterRuns file runs).pending = none := by
  induction runs generalizing machine with
  | nil => exact ⟨rfl, idle⟩
  | cons step rest ih =>
    have kept := allKept_evaluate file (ScriptKit.evaluate file step.1) step.1 (.program step.2)
    have scope := kept.scope idle (yields_run _ machine)
    have emptied : (machine.run file step.1 step.2).2.pending = none := rfl
    obtain ⟨reached, empty⟩ := ih emptied
    exact ⟨reached.trans scope, empty⟩

/-- From a machine without a pending return, no nested call of an evaluation is entered with one: in
the place of such calls anything may happen, and the outcome is the same. The evaluation comes back
to its scope, and a return is pending afterwards only if it succeeded on a statement. Hence a machine
that starts empty is in the global scope with nothing pending after any runs. -/
theorem Machine.evaluate_registers (machine : Machine) (idle : machine.pending = none)
    (file : Option String) (fuel : Nat) (node : Node) :
    (∀ alarm, (evaluateWatched file alarm fuel node).run.run machine =
      machine.evaluate file fuel node) ∧
    (machine.evaluate file fuel node).2.scope = machine.scope ∧
    (node.isExpression = true → (machine.evaluate file fuel node).2.pending = none) ∧
    (∀ fault, (machine.evaluate file fuel node).1 = .error fault →
      (machine.evaluate file fuel node).2.pending = none) ∧
    ∀ runs, (Machine.initial.afterRuns file runs).scope = globalScope ∧
      (Machine.initial.afterRuns file runs).pending = none := by
  have kept (alarm : Node → Run Value) := allKept_evaluate file alarm fuel node
  have unwatched := kept (ScriptKit.evaluate file fuel)
  have run : Yields (ScriptKit.evaluate file fuel node) machine
      (machine.evaluate file fuel node).1 (machine.evaluate file fuel node).2 := yields_run _ machine
  refine ⟨fun alarm => (kept alarm).same idle run, ?_, ?_, ?_, ?_⟩
  · exact unwatched.scope idle run
  · intro quiet
    exact unwatched.empty idle run (.inl quiet)
  · intro fault failed
    exact unwatched.empty idle run (.inr ⟨fault, failed⟩)
  · exact afterRuns_registers rfl file

/-- A machine on which a function was declared that returns from inside a loop. -/
def returningMachine : Machine :=
  Machine.initial.afterRuns none [(9, ⟨default, [.function default "f" [] (.loop default
    (.literal default (.boolean true)) (.giveBack default (.literal default (.boolean false))))]⟩)]

/-- A call of the function, compared with a name that is not bound. -/
def unboundOperand : Node :=
  .expression (.binary default .equal (.call default "f" []) (.identifier default "y"))

/-- The call returns from the loop, then the other operand fails, and nothing is pending. -/
theorem Machine.evaluate_registers_operand :
    returningMachine.pending = none ∧
      ∃ fault, (returningMachine.evaluate none 9 unboundOperand).1 = .error fault ∧
        (returningMachine.evaluate none 9 unboundOperand).2.pending = none := by
  have idle : returningMachine.pending = none := by decide +kernel
  have unbound : (returningMachine.evaluate none 9 unboundOperand).1.isOk = false := by
    decide +kernel
  obtain ⟨_, _, _, empty, _⟩ := evaluate_registers returningMachine idle none 9 unboundOperand
  cases failed : (returningMachine.evaluate none 9 unboundOperand).1 with
  | error fault => exact ⟨idle, fault, rfl, empty fault failed⟩
  | ok value =>
    rw [failed] at unbound
    cases unbound

end ScriptKit
