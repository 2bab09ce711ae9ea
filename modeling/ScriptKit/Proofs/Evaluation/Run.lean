import ScriptKit.Proofs.Evaluation.BigStep
import ScriptKit.Proofs.Yields

/-!
What the actions of a run do to the machine.
-/
namespace ScriptKit

/-- The machine that works on a store. -/
def Store.machine (store : Store) (scope : ScopeId) (pending : Option Value) : Machine :=
  ⟨store.heap, scope, pending, store.output⟩

def Machine.store (machine : Machine) : Store := ⟨machine.heap, machine.output⟩

namespace Run

variable {α β : Type}

theorem yields_fail {fault : RunFault} : Yields (fail fault : Run α) before result after ↔
    result = .error fault ∧ after = before :=
  yields_throw

theorem yields_settle {outcome : Except RunFault α} :
    Yields (settle outcome) before result after ↔ result = outcome ∧ after = before := by
  cases outcome with
  | ok value => exact yields_pure
  | error fault => exact yields_fail

theorem yields_isReturning : Yields isReturning before result after ↔
    result = .ok before.pending.isSome ∧ after = before :=
  yields_of_run rfl

private theorem yields_lookup {file : Option String} {span : Span} {name : String} :
    Yields (lookup file span name) before result after ↔
      (result = match before.heap.find? before.scope name with
        | some found => .ok found
        | none => .error (undefinedFault file span name)) ∧ after = before := by
  apply yields_of_run
  apply Yields.get.bind
  cases before.heap.find? before.scope name with
  | none => exact yields_fail.mpr ⟨rfl, rfl⟩
  | some found => exact .pure

theorem yields_lookup_ok {file : Option String} {span : Span} {name : String} :
    Yields (lookup file span name) before (.ok found) after ↔
      before.heap.find? before.scope name = some found ∧ after = before := by
  rw [yields_lookup]
  cases before.heap.find? before.scope name <;> simp [eq_comm]

theorem yields_lookup_error {file : Option String} {span : Span} {name : String} :
    Yields (lookup file span name) before (.error fault) after ↔
      before.heap.find? before.scope name = none ∧ fault = undefinedFault file span name ∧
        after = before := by
  rw [yields_lookup]
  cases before.heap.find? before.scope name <;> simp

section
variable {before : Store} {scope : ScopeId} {pending : Option Value}

/-- The machine of the inner action, back in the old scope. -/
theorem yields_within {inner : ScopeId} {action : Run α} :
    Yields (within inner action) (before.machine scope pending) result final ↔
      ∃ after, Yields action (before.machine inner pending) result after ∧
        final = after.store.machine scope after.pending := by
  have computed : (within inner action).run.run (before.machine scope pending) =
      ((action.run.run (before.machine inner pending)).1,
        (action.run.run (before.machine inner pending)).2.store.machine scope
          (action.run.run (before.machine inner pending)).2.pending) := rfl
  rw [yields_of_run computed]
  constructor
  · rintro ⟨rfl, rfl⟩
    exact ⟨_, yields_run action _, rfl⟩
  · rintro ⟨after, run, rfl⟩
    obtain ⟨rfl, rfl⟩ := run.unique (yields_run action _)
    exact ⟨rfl, rfl⟩

theorem yields_newScope {parent : ScopeId} :
    Yields (newScope parent) (before.machine scope pending) result after ↔
      result = .ok before.nextScope ∧ after = (before.enter parent).machine scope pending :=
  yields_of_run rfl

theorem yields_declare {owner : ScopeId} {name : String} {value : Value} :
    Yields (declare owner name value) (before.machine scope pending) result after ↔
      result = .ok () ∧ after = (before.declare owner name value).machine scope pending :=
  yields_of_run rfl

theorem yields_takeReturn {value : Value} :
    Yields (takeReturn value) (before.machine scope pending) result after ↔
      result = .ok (pending.getD value) ∧ after = before.machine scope none := by
  cases pending <;> exact yields_of_run rfl

end

end Run

/-- Binding by position from one position on takes the values from there on. -/
private theorem yields_bindParameters_from (scope : ScopeId) (parameters : List String)
    (values : List Value) (position : Nat) (store : Store) (current : ScopeId)
    (pending : Option Value) :
    Yields (Run.bindParameters scope parameters (values.drop position))
      (store.machine current pending) (.ok ())
      (((parameters.zipIdx position).foldl
        (fun store parameter =>
          store.declare scope parameter.1 (values.getD parameter.2 .undefined)) store).machine current pending) := by
  induction parameters generalizing position store with
  | nil => exact .pure
  | cons name names ih =>
    have rest := ih (position + 1) (store.declare scope name (values.getD position .undefined))
    have declared (value : Value) : Yields (Run.declare scope name value)
        (store.machine current pending) (.ok ())
        ((store.declare scope name value).machine current pending) :=
      Run.yields_declare.mpr ⟨rfl, rfl⟩
    rw [List.zipIdx_cons, List.foldl_cons]
    cases remaining : values.drop position with
    | nil =>
      have short := List.drop_eq_nil_iff.mp remaining
      have here : values.getD position .undefined = .undefined := by
        rw [List.getD_eq_getElem?_getD, List.getElem?_eq_none short]
        rfl
      rw [here, List.drop_eq_nil_of_le (by omega)] at rest
      rw [here]
      exact (declared _).bind rest
    | cons value others =>
      have here : values.getD position .undefined = value := by
        rw [List.getD_eq_getElem?_getD, ← List.head?_drop, remaining]
        rfl
      have after : values.drop (position + 1) = others := by
        rw [← List.tail_drop, remaining, List.tail_cons]
      rw [here, after] at rest
      rw [here]
      exact (declared _).bind rest

theorem yields_bindParameters (scope : ScopeId) (parameters : List String) (values : List Value)
    (store : Store) (current : ScopeId) (pending : Option Value) :
    Yields (Run.bindParameters scope parameters values) (store.machine current pending)
      (.ok ()) ((store.bindArguments scope parameters values).machine current pending) :=
  yields_bindParameters_from scope parameters values 0 store current pending

end ScriptKit
