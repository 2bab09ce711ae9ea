/-!
What an action does. It yields a result, which may be an error, and a state; each lemma says exactly
which ones, so that proofs about actions need not look inside them.
-/
namespace ScriptKit

variable {ε σ α β : Type}

instance decidableEqExcept [DecidableEq ε] [DecidableEq α] : DecidableEq (Except ε α)
  | .error one, .error two => decidable_of_iff (one = two) (by simp)
  | .ok one, .ok two => decidable_of_iff (one = two) (by simp)
  | .error _, .ok _ => isFalse nofun
  | .ok _, .error _ => isFalse nofun

theorem bind_eq_ok {first : Except ε α} {next : α → Except ε β} {result : β} :
    first >>= next = .ok result ↔ ∃ value, first = .ok value ∧ next value = .ok result := by
  cases first with
  | error error =>
    constructor
    · intro impossible
      cases impossible
    · rintro ⟨_, impossible, _⟩
      cases impossible
  | ok value =>
    constructor
    · intro success
      exact ⟨value, rfl, success⟩
    · rintro ⟨_, same, success⟩
      cases same
      exact success

theorem map_eq_ok {first : Except ε α} {change : α → β} (mapped : first.map change = .ok value) :
    ∃ found, first = .ok found ∧ value = change found := by
  cases first with
  | error error => cases mapped
  | ok found =>
    cases mapped
    exact ⟨found, rfl, rfl⟩

theorem map_eq_error {first : Except ε α} {change : α → β}
    (mapped : first.map change = .error error) : first = .error error := by
  cases first with
  | error found =>
    cases mapped
    rfl
  | ok value => cases mapped

/-- From `before`, the action ends with the result and leaves the state `after`. -/
def Yields (action : ExceptT ε (StateM σ) α) (before : σ) (result : Except ε α) (after : σ) : Prop :=
  action.run.run before = (result, after)

theorem yields_run (action : ExceptT ε (StateM σ) α) (before : σ) :
    Yields action before (action.run.run before).1 (action.run.run before).2 := rfl

theorem Yields.unique {action : ExceptT ε (StateM σ) α} (one : Yields action before result after)
    (two : Yields action before result' after') : result = result' ∧ after = after' :=
  Prod.mk.inj (one.symm.trans two)

theorem yields_of_run {action : ExceptT ε (StateM σ) α}
    (run : action.run.run before = (outcome, final)) :
    Yields action before result after ↔ result = outcome ∧ after = final := by
  unfold Yields
  rw [run, Prod.mk.injEq, eq_comm, @eq_comm _ final]

theorem yields_pure {value : α} :
    Yields (pure value : ExceptT ε (StateM σ) α) before result after ↔
      result = .ok value ∧ after = before :=
  yields_of_run rfl

theorem yields_throw {error : ε} :
    Yields (throw error : ExceptT ε (StateM σ) α) before result after ↔
      result = .error error ∧ after = before :=
  yields_of_run rfl

theorem yields_get : Yields (get : ExceptT ε (StateM σ) σ) before result after ↔
    result = .ok before ∧ after = before :=
  yields_of_run rfl

theorem yields_modify {change : σ → σ} :
    Yields (modify change : ExceptT ε (StateM σ) Unit) before result after ↔
      result = .ok () ∧ after = change before :=
  yields_of_run rfl

theorem yields_set {state : σ} :
    Yields (set state : ExceptT ε (StateM σ) Unit) before result after ↔
      result = .ok () ∧ after = state :=
  yields_of_run rfl

/-! The same steps as rules, for a run that is put together. -/

protected theorem Yields.pure {value : α} :
    Yields (pure value : ExceptT ε (StateM σ) α) state (.ok value) state := rfl

protected theorem Yields.throw {error : ε} :
    Yields (throw error : ExceptT ε (StateM σ) α) state (.error error) state := rfl

protected theorem Yields.get : Yields (get : ExceptT ε (StateM σ) σ) state (.ok state) state := rfl

protected theorem Yields.modify {change : σ → σ} :
    Yields (modify change : ExceptT ε (StateM σ) Unit) state (.ok ()) (change state) := rfl

protected theorem Yields.set :
    Yields (set after : ExceptT ε (StateM σ) Unit) before (.ok ()) after := rfl

section
variable {action : ExceptT ε (StateM σ) α} {next : α → ExceptT ε (StateM σ) β}

theorem Yields.bind (first : Yields action before (.ok value) middle)
    (rest : Yields (next value) middle result after) :
    Yields (action >>= next) before result after := by
  unfold Yields at first rest ⊢
  rw [ExceptT.run_bind, StateT.run_bind, first]
  exact rest

theorem Yields.bind_error (first : Yields action before (.error error) after) :
    Yields (action >>= next) before (.error error) after := by
  unfold Yields at first ⊢
  rw [ExceptT.run_bind, StateT.run_bind, first]
  rfl

/-- A sequence whose second part only changes the result of the first. -/
theorem Yields.mapped (run : Yields action before result after) (change : α → β) :
    Yields (action >>= fun value => pure (change value)) before (result.map change) after := by
  cases result with
  | error error => exact run.bind_error
  | ok value => exact run.bind .pure

/-- A sequence either fails in its first part, or goes on from where that leaves the state. -/
theorem yields_bind : Yields (action >>= next) before result after ↔
      (∃ value middle, Yields action before (.ok value) middle ∧
        Yields (next value) middle result after) ∨
      ∃ error, Yields action before (.error error) after ∧ result = .error error := by
  constructor
  · intro run
    rcases observed : action.run.run before with ⟨error | value, middle⟩
    · obtain ⟨rfl, rfl⟩ := run.unique (Yields.bind_error observed)
      exact .inr ⟨error, observed, rfl⟩
    · obtain ⟨rfl, rfl⟩ := run.unique (Yields.bind observed (yields_run (next value) middle))
      exact .inl ⟨value, middle, observed, yields_run (next value) middle⟩
  · rintro (⟨value, middle, first, rest⟩ | ⟨error, first, rfl⟩)
    · exact first.bind rest
    · exact first.bind_error

/-- What is left of a sequence whose first part is known not to fail. -/
theorem Yields.rest (run : Yields (action >>= next) before result after)
    (first : Yields action before (.ok value) middle) :
    Yields (next value) middle result after := by
  obtain ⟨rfl, rfl⟩ := run.unique (first.bind (yields_run (next value) middle))
  exact yields_run (next value) middle

variable {handler : ε → ExceptT ε (StateM σ) α}

theorem Yields.passed (run : Yields action before (.ok value) after) :
    Yields (tryCatch action handler) before (.ok value) after := by
  unfold Yields at run ⊢
  rw [ExceptT.run_tryCatch, StateT.run_bind, run]
  rfl

theorem Yields.caught (first : Yields action before (.error error) middle)
    (rest : Yields (handler error) middle result after) :
    Yields (tryCatch action handler) before result after := by
  unfold Yields at first rest ⊢
  rw [ExceptT.run_tryCatch, StateT.run_bind, first]
  exact rest

/-- An action with a handler either succeeds, or goes on from where the error leaves the state. -/
theorem yields_tryCatch : Yields (tryCatch action handler) before result after ↔
    (∃ value, Yields action before (.ok value) after ∧ result = .ok value) ∨
      ∃ error middle, Yields action before (.error error) middle ∧
        Yields (handler error) middle result after := by
  constructor
  · intro run
    rcases observed : action.run.run before with ⟨error | value, middle⟩
    · obtain ⟨rfl, rfl⟩ := run.unique (Yields.caught observed (yields_run (handler error) middle))
      exact .inr ⟨error, middle, observed, yields_run (handler error) middle⟩
    · obtain ⟨rfl, rfl⟩ := run.unique (Yields.passed observed)
      exact .inl ⟨value, observed, rfl⟩
  · rintro (⟨value, run, rfl⟩ | ⟨error, middle, first, rest⟩)
    · exact run.passed
    · exact first.caught rest

end

end ScriptKit
