import ScriptKit.Proofs.Evaluation.DeclaredNames

/-!
Where the fault of a run comes from. A node passes on the faults of the nodes inside it, so that each
fault but the lack of fuel is the own one of a node that the run comes to evaluate.
-/
namespace ScriptKit

open Run

/-- What a node itself fails with, given how the nodes inside it are evaluated. -/
inductive Node.Raises (file : Option String) (evaluate : Node → Run Value) (before : Machine) :
    Node → RunFault → Prop where
  | identifier :
      Raises file evaluate before (.expression (.identifier site name)) (undefinedFault file site name)
  | assign :
      Raises file evaluate before (.statement (.assign site name value))
        (undefinedFault file site name)
  | callee (called : IsCall node site name arguments) :
      Raises file evaluate before node (undefinedFault file site name)
  | notAFunction (called : IsCall node site name arguments) :
      Raises file evaluate before node (.located file site (.notAFunction name))
  | binary (first : Yields (evaluate (.expression left)) before (.ok value) middle)
      (second : Yields (evaluate (.expression right)) middle (.ok value') after)
      (failed : applyBinary file site operator value value' = .error fault) :
      Raises file evaluate before (.expression (.binary site operator left right)) fault
  | print {shown : Value}
      (ran : Yields (evaluate (.expression argument)) before (.ok shown) after)
      (unshown : shown.shown = .error fault) :
      Raises file evaluate before (.statement (.print site argument)) fault
  | importFile :
      Raises file evaluate before (.statement (.importFile site path))
        (.located file site (.importNotSupported path))

/-- Another evaluation gives every value that the plain one gives; where that one fails, it may do
anything. -/
def Preserves (other plain : Node → Run Value) : Prop :=
  ∀ node before value after, Yields (plain node) before (.ok value) after →
    Yields (other node) before (.ok value) after

/-- Where the outcome of an action comes from. Its value hangs on no failing evaluation. Its fault is
its own, or that of a nested evaluation; whatever fault is there instead, the action has that one. -/
structure Stems {α : Type} (own : RunFault → Prop) (action : (Node → Run Value) → Run α)
    (plain : Node → Run Value) (before : Machine) : Prop where
  kept : ∀ value after, Yields (action plain) before (.ok value) after →
    ∀ other, Preserves other plain → Yields (action other) before (.ok value) after
  traced : ∀ fault after, Yields (action plain) before (.error fault) after → own fault ∨
    ∃ nested inner last, Yields (plain nested) inner (.error fault) last ∧
      ∀ other, Preserves other plain → ∀ fault' last', Yields (other nested) inner (.error fault') last' →
        ∃ after', Yields (action other) before (.error fault') after'

namespace Stems

variable {α β : Type} {own : RunFault → Prop} {plain : Node → Run Value} {before : Machine}

/-- An action without nested evaluations. -/
theorem alone {action : Run α}
    (raised : ∀ fault after, Yields action before (.error fault) after → own fault) :
    Stems own (fun _ => action) plain before where
  kept _ _ run _ _ := run
  traced fault after run := .inl (raised fault after run)

/-- An action without nested evaluations that gives a value. -/
theorem given {action : Run α} (run : Yields action before (.ok value) after) :
    Stems own (fun _ => action) plain before := by
  refine alone fun fault after' run' => ?_
  cases (run.unique run').1

theorem pure (value : α) : Stems own (fun _ => pure value) plain before :=
  given .pure

theorem fail (raised : own fault) : Stems own (fun _ => (fail fault : Run α)) plain before := by
  refine alone fun fault' after run => ?_
  cases (yields_fail.mp run).1
  exact raised

theorem settle {outcome : Except RunFault α}
    (raised : ∀ fault, outcome = .error fault → own fault) :
    Stems own (fun _ => settle outcome) plain before :=
  alone fun fault _ run => raised fault (yields_settle.mp run).1.symm

theorem lookup (raised : own (undefinedFault file span name)) :
    Stems own (fun _ => lookup file span name) plain before := by
  refine alone fun fault after run => ?_
  obtain ⟨_, rfl, _⟩ := yields_lookup_error.mp run
  exact raised

theorem bindParameters (scope : ScopeId) (parameters : List String) (values : List Value) :
    Stems own (fun _ => bindParameters scope parameters values) plain before := by
  have binds : ∃ after, Yields (Run.bindParameters scope parameters values) before (.ok ()) after := by
    induction parameters generalizing values before with
    | nil => exact ⟨before, rfl⟩
    | cons name names ih =>
      cases values with
      | nil =>
        obtain ⟨after, run⟩ := @ih
          { before with heap := before.heap.declare scope name .undefined } []
        exact ⟨after, run⟩
      | cons value values =>
        obtain ⟨after, run⟩ := @ih
          { before with heap := before.heap.declare scope name value } values
        exact ⟨after, run⟩
  obtain ⟨after, run⟩ := binds
  exact given run

theorem takeReturn (value : Value) : Stems own (fun _ => takeReturn value) plain before := by
  have run : Yields (ScriptKit.takeReturn value)
      (before.store.machine before.scope before.pending) (.ok (before.pending.getD value))
      (before.store.machine before.scope none) := yields_takeReturn.mpr ⟨rfl, rfl⟩
  exact given run

theorem newScope (parent : ScopeId) : Stems own (fun _ => newScope parent) plain before :=
  given (yields_run _ before)

theorem ask (node : Node) : Stems own (fun evaluate => evaluate node) plain before where
  kept _ _ run _ preserves := preserves _ _ _ _ run
  traced _ after run := .inr ⟨node, before, after, run, fun _ _ _ last run' => ⟨last, run'⟩⟩

theorem bind {action : (Node → Run Value) → Run α} {next : α → (Node → Run Value) → Run β}
    (first : Stems own action plain before)
    (rest : ∀ value middle, Yields (action plain) before (.ok value) middle →
      Stems own (next value) plain middle) :
    Stems own (fun evaluate => action evaluate >>= fun value => next value evaluate) plain before := by
  refine ⟨?_, ?_⟩
  · intro value after run other preserves
    rcases yields_bind.mp run with ⟨given, middle, ran, run⟩ | ⟨_, _, same⟩
    · have ran' := first.kept given middle ran other preserves
      exact ran'.bind ((rest given middle ran).kept value after run other preserves)
    · cases same
  · intro fault after run
    rcases yields_bind.mp run with ⟨given, middle, ran, run⟩ | ⟨_, ran, same⟩
    · refine ((rest given middle ran).traced fault after run).imp_right ?_
      rintro ⟨nested, inner, last, failed, passed⟩
      refine ⟨nested, inner, last, failed, fun other preserves fault' last' failed' => ?_⟩
      obtain ⟨after', run'⟩ := passed other preserves fault' last' failed'
      exact ⟨after', (first.kept given middle ran other preserves).bind run'⟩
    · cases same
      refine (first.traced fault after ran).imp_right ?_
      rintro ⟨nested, inner, last, failed, passed⟩
      refine ⟨nested, inner, last, failed, fun other preserves fault' last' failed' => ?_⟩
      obtain ⟨after', run'⟩ := passed other preserves fault' last' failed'
      exact ⟨after', run'.bind_error⟩

theorem within {action : (Node → Run Value) → Run α} {inner : ScopeId}
    (inside : Stems own action plain { before with scope := inner }) :
    Stems own (fun evaluate => Run.within inner (action evaluate)) plain before := by
  have outward {action : Run α} {result : Except RunFault α} {reached : Machine}
      (ran : Yields action { before with scope := inner } result reached) :
      Yields (Run.within inner action) (before.store.machine before.scope before.pending) result
        (reached.store.machine before.scope reached.pending) :=
    yields_within.mpr ⟨reached, ran, rfl⟩
  refine ⟨?_, ?_⟩
  · intro value after run other preserves
    change Yields _ (before.store.machine before.scope before.pending) _ _ at run
    obtain ⟨reached, ran, rfl⟩ := yields_within.mp run
    exact outward (inside.kept value reached ran other preserves)
  · intro fault after run
    change Yields _ (before.store.machine before.scope before.pending) _ _ at run
    obtain ⟨reached, ran, rfl⟩ := yields_within.mp run
    refine (inside.traced fault reached ran).imp_right ?_
    rintro ⟨nested, inner, last, failed, passed⟩
    refine ⟨nested, inner, last, failed, fun other preserves fault' last' failed' => ?_⟩
    obtain ⟨after', run'⟩ := passed other preserves fault' last' failed'
    exact ⟨_, outward run'⟩

theorem evaluateAll (expressions : List Expression) :
    Stems own (fun evaluate => evaluateAll evaluate expressions) plain before := by
  induction expressions generalizing before with
  | nil => exact pure []
  | cons expression rest ih =>
    refine (ask (.expression expression)).bind fun value middle _ => ?_
    exact ih.bind fun values last _ => pure _

theorem runCall {node : Node} (called : node.IsCall span callee arguments)
    (includes : ∀ fault, node.Raises file plain before fault → own fault) :
    Stems own (fun evaluate => runCall file evaluate span callee arguments) plain before := by
  refine (lookup (includes _ (.callee called))).bind fun found looked _ => ?_
  refine (evaluateAll arguments).bind fun values middle _ => ?_
  obtain ⟨_, target⟩ := found
  cases target with
  | function closure =>
    refine (newScope closure.scope).bind fun scope entered _ => ?_
    refine (bindParameters scope closure.parameters values).bind fun _ ready _ => ?_
    refine (within (ask (.statement closure.body))).bind fun result last _ => ?_
    exact takeReturn result
  | _ => exact fail (includes _ (.notAFunction called))

theorem evaluateExpression (node : Expression)
    (includes : ∀ fault, (Node.expression node).Raises file plain before fault → own fault) :
    Stems own (fun evaluate => evaluateExpression file evaluate node) plain before := by
  cases node with
  | literal span value => exact pure _
  | identifier span name => exact (lookup (includes _ .identifier)).bind fun found middle _ => pure _
  | binary span operator left right =>
    refine (ask (.expression left)).bind fun value middle first => ?_
    refine (ask (.expression right)).bind fun value' last second => ?_
    exact settle fun fault failed => includes fault (.binary first second failed)
  | logical span operator left right =>
    refine (ask (.expression left)).bind fun value middle first => ?_
    split
    · exact ask (.expression right)
    · exact pure value
  | call span callee arguments => exact runCall (.inl rfl) includes

/-- After a statement the slot for a return is looked at. -/
theorem checked {action : (Node → Run Value) → Run Value}
    {next : Value → (Node → Run Value) → Run Value} (first : Stems own action plain before)
    (rest : ∀ value middle, Stems own (next value) plain middle) :
    Stems own (fun evaluate => do
      let value ← action evaluate
      if ← isReturning then return value else next value evaluate) plain before := by
  refine first.bind fun value middle _ => ?_
  refine (given (yields_isReturning.mpr ⟨rfl, rfl⟩)).bind fun returning looked _ => ?_
  split
  · exact pure value
  · exact rest value looked

theorem runStatements (previous : Value) (statements : List Statement) :
    Stems own (fun evaluate => runStatements evaluate previous statements) plain before := by
  induction statements generalizing before previous with
  | nil => exact pure previous
  | cons statement rest ih =>
    exact checked (ask (.statement statement)) fun value middle => ih value

theorem runLoop (test : Expression) (body : Statement) (rounds : Nat) (previous : Value)
    (spent : own .outOfFuel) :
    Stems own (fun evaluate => runLoop evaluate test body rounds previous) plain before := by
  induction rounds generalizing before previous with
  | zero => exact fail spent
  | succ rounds ih =>
    refine (ask (.expression test)).bind fun condition tested _ => ?_
    split
    · exact checked (ask (.statement body)) fun value middle => ih value
    · exact pure previous

theorem runStatement (fuel : Nat) (node : Statement) (spent : own .outOfFuel)
    (includes : ∀ fault, (Node.statement node).Raises file plain before fault → own fault) :
    Stems own (fun evaluate => runStatement file fuel evaluate node) plain before := by
  cases node with
  | declare span name value =>
    refine (ask (.expression value)).bind fun result middle _ => ?_
    exact given (yields_run _ _)
  | assign span name value =>
    refine (ask (.expression value)).bind fun result middle _ => ?_
    refine (lookup (includes _ .assign)).bind fun found looked _ => ?_
    exact given (yields_run _ _)
  | block span body =>
    refine (given .get).bind fun machine looked _ => ?_
    refine (newScope machine.scope).bind fun scope entered _ => ?_
    exact within (runStatements .undefined body)
  | branch span test consequent alternate =>
    refine (ask (.expression test)).bind fun condition middle _ => ?_
    split
    · exact ask (.statement consequent)
    · cases alternate with
      | none => exact pure Value.undefined
      | some other => exact ask (.statement other)
  | loop span test body => exact runLoop test body fuel .undefined spent
  | function span name parameters body => exact given (yields_run _ _)
  | giveBack span argument =>
    refine (ask (.expression argument)).bind fun value middle _ => ?_
    exact given (yields_run _ _)
  | print span argument =>
    refine (ask (.expression argument)).bind fun value middle ran => ?_
    refine (settle fun fault unshown => includes fault (.print ran unshown)).bind
      fun text shown _ => ?_
    exact given (yields_run _ _)
  | importFile span path => exact fail (includes _ .importFile)
  | call span callee arguments => exact runCall (.inr rfl) includes

/-- A node fails by itself, for lack of fuel, because it is none of a program, or because a nested one
does. -/
theorem evaluateStep (file : Option String) (fuel : Nat) (plain : Node → Run Value)
    (before : Machine) (node : Node) (inside : ∀ value, node ≠ .span value) :
    Stems (fun fault => fault = .outOfFuel ∨ node.Raises file plain before fault)
      (fun evaluate => evaluateStep file fuel evaluate node) plain before := by
  cases node with
  | expression value => exact evaluateExpression value fun _ => .inr
  | statement value => exact runStatement fuel value (.inl rfl) fun _ => .inr
  | program value => exact runStatements .undefined value.body
  | span value => exact absurd rfl (inside value)

end Stems

theorem RunFault.exists_ne (fault : RunFault) : ∃ other : RunFault, other ≠ fault := by
  by_cases spent : fault = .outOfFuel
  · exact ⟨.unhandledNode, by simp [spent]⟩
  · exact ⟨.outOfFuel, Ne.symm spent⟩

/-- A node fails because one that it asks for does, by itself, or for lack of fuel. -/
theorem Machine.asks_of_failed {machine : Machine} (inside : ∀ value, node ≠ .span value)
    (failed : (machine.evaluate file (fuel + 1) node).1 = .error fault) :
    (fault = .outOfFuel ∨ node.Raises file (ScriptKit.evaluate file fuel) machine fault) ∨
      ∃ nested inner, machine.Asks file fuel node nested inner ∧
        (inner.evaluate file fuel nested).1 = .error fault := by
  classical
  have run : Yields (evaluateStep file fuel (ScriptKit.evaluate file fuel) node) machine
      (.error fault) (machine.evaluate file (fuel + 1) node).2 := Prod.ext failed rfl
  have stems := Stems.evaluateStep file fuel (ScriptKit.evaluate file fuel) machine node inside
  refine (stems.traced fault _ run).imp_right ?_
  rintro ⟨nested, inner, last, failed', passed⟩
  refine ⟨nested, inner, ?_, congrArg Prod.fst failed'⟩
  -- With another fault in that one place, the node has that other fault.
  obtain ⟨fault', differs⟩ := fault.exists_ne
  let other (part : Node) : Run Value := fun reached =>
    if (part, reached) = (nested, inner) then (.error fault', reached)
    else ScriptKit.evaluate file fuel part reached
  have preserves : Preserves other (ScriptKit.evaluate file fuel) := by
    intro part reached value after ran
    have elsewhere : (part, reached) ≠ (nested, inner) := by
      rintro ⟨⟩
      cases (ran.unique failed').1
    exact (if_neg elsewhere).trans ran
  obtain ⟨after, run'⟩ := passed other preserves fault' inner (if_pos rfl)
  refine ⟨other, fun part reached elsewhere => if_neg elsewhere, fun same => ?_⟩
  have result := congrArg Prod.fst (run'.symm.trans same)
  rw [failed] at result
  exact differs (Except.error.inj result)

/-- Every fault of a run but the lack of fuel is raised by a node that the run comes to evaluate. The
induction is on the fuel. -/
theorem Program.Visits.origin {program : Program} {machine : Machine}
    (visits : program.Visits file fuel node machine)
    (failed : (machine.evaluate file fuel node).1 = .error fault) :
    fault = .outOfFuel ∨ ∃ fuel' raising reached,
      program.Visits file (fuel' + 1) raising reached ∧
        raising.Raises file (evaluate file fuel') reached fault := by
  induction fuel generalizing node machine with
  | zero => exact .inl (Except.error.inj failed).symm
  | succ fuel ih =>
    have inside : ∀ value, node ≠ .span value := by
      rintro value rfl
      exact Part.not_span visits.rooted.1
    rcases Machine.asks_of_failed inside failed with own | ⟨nested, inner, asks, failed'⟩
    · exact own.imp_right fun raises => ⟨fuel, node, machine, visits, raises⟩
    · exact ih (.nested visits asks) failed'

end ScriptKit
