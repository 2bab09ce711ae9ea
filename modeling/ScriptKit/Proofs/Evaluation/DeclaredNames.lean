import ScriptKit.Proofs.Evaluation.Frames
import ScriptKit.Proofs.Program.Distinction

/-!
The names a program declares are all the names its runs know. In no state of a run, whether it ends or
not, does any scope bind another name; so a name that the program does not declare is undefined
wherever it is looked up.
-/
namespace ScriptKit

open Run

/-- The node is a call, as an expression or as a statement. -/
def Node.IsCall (node : Node) (span : Span) (callee : String) (arguments : List Expression) : Prop :=
  node = .expression (.call span callee arguments) ∨
    node = .statement (.call span callee arguments)

/-- While the node is evaluated, the nested one is evaluated from `inner`: what that evaluation does,
and no other, makes a difference to the outcome. -/
def Machine.Asks (machine : Machine) (file : Option String) (fuel : Nat) (node nested : Node)
    (inner : Machine) : Prop :=
  ∃ other : Node → Run Value,
    (∀ part reached, (part, reached) ≠ (nested, inner) →
      (other part).run.run reached = (ScriptKit.evaluate file fuel part).run.run reached) ∧
    (evaluateStep file fuel other node).run.run machine ≠ machine.evaluate file (fuel + 1) node

/-- A run of the program with some fuel comes to evaluate the node from the machine, with the given
fuel left. -/
inductive Program.Visits (program : Program) (file : Option String) :
    Nat → Node → Machine → Prop where
  | start (fuel : Nat) : Visits program file fuel (.program program) Machine.initial
  | nested {inner : Machine} (outer : Visits program file (fuel + 1) node machine)
      (asks : machine.Asks file fuel node part inner) : Visits program file fuel part inner

/-- The states of a run of the program: those in which the evaluation of a node starts or ends. -/
def Program.Meets (program : Program) (file : Option String) (machine : Machine) : Prop :=
  ∃ fuel node before, program.Visits file fuel node before ∧
    (machine = before ∨ machine = (before.evaluate file fuel node).2)

namespace Machine.Rooted

variable {program : Program} {machine inner : Machine}

/-- What is asked for is a part of the program, from a machine that has only names and functions of the
program. -/
theorem asks (rooted : machine.Rooted program.law) (part : program.Part node)
    (asks : machine.Asks file fuel node nested inner) :
    program.Part nested ∧ inner.Rooted program.law := by
  obtain ⟨other, same, differs⟩ := asks
  apply Classical.byContradiction
  intro outside
  refine differs (rooted.entered part fun node' reached part' rooted' => same node' reached ?_)
  rintro ⟨⟩
  exact outside ⟨part', rooted'⟩

/-- A name that the program does not declare is bound nowhere. -/
theorem unbound (rooted : machine.Rooted program.law) (undeclared : ¬ program.Declares name)
    (start : ScopeId) : machine.heap.find? start name = none := by
  cases found : machine.heap.find? start name with
  | none => rfl
  | some bound =>
    obtain ⟨scope, present, member⟩ := Heap.find?_bound found
    exact absurd (rooted.heap.held _ scope _ present member).1 undeclared

theorem lookup (rooted : machine.Rooted program.law) (undeclared : ¬ program.Declares name)
    (file : Option String) (span : Span) :
    Yields (Run.lookup file span name) machine (.error (undefinedFault file span name)) machine :=
  yields_lookup_error.mpr ⟨rooted.unbound undeclared machine.scope, rfl, rfl⟩

end Machine.Rooted

theorem Program.Visits.rooted {program : Program} (visits : program.Visits file fuel node machine) :
    program.Part node ∧ machine.Rooted program.law := by
  induction visits with
  | start fuel => exact ⟨.whole, .initial⟩
  | nested outer asks ih => exact ih.2.asks ih.1 asks

theorem Program.Meets.rooted {program : Program} (meets : program.Meets file machine) :
    machine.Rooted program.law := by
  obtain ⟨fuel, node, before, visits, rfl | rfl⟩ := meets
  · exact visits.rooted.2
  · exact (visits.rooted.2.evaluate file fuel node visits.rooted.1).1.rooted

/-- In every state of a run all names that are bound in any scope are declared in the program. A name
that is not declared is undefined as an identifier and as a callee; so it is as the target of an
assignment, once the assigned value is there. -/
theorem Program.Meets.names_declared {program : Program} (meets : program.Meets file machine) :
    (∀ id scope name, machine.heap.scope? id = some scope → name ∈ scope.names →
      program.Declares name) ∧
    ∀ name, ¬ program.Declares name → ∀ fuel span,
      machine.evaluate file (fuel + 1) (.expression (.identifier span name)) =
        (.error (undefinedFault file span name), machine) ∧
      (∀ node arguments, node.IsCall span name arguments →
        machine.evaluate file (fuel + 1) node =
          (.error (undefinedFault file span name), machine)) ∧
      ∀ value, program.Part (.statement (.assign span name value)) →
        machine.evaluate file (fuel + 1) (.statement (.assign span name value)) =
          ((machine.evaluate file fuel (.expression value)).1.bind fun _ =>
            .error (undefinedFault file span name),
          (machine.evaluate file fuel (.expression value)).2) := by
  have rooted := meets.rooted
  refine ⟨?_, ?_⟩
  · intro id scope name found member
    obtain ⟨binding, bound, rfl⟩ := List.mem_map.mp member
    exact (rooted.heap.held id scope binding found bound).1
  · intro name undeclared fuel span
    have missing := rooted.lookup undeclared file span
    refine ⟨missing.bind_error, ?_, ?_⟩
    · rintro node arguments (rfl | rfl)
      · exact missing.bind_error
      · exact missing.bind_error
    · intro value part
      have inside : program.Part (.expression value) := .inner part (List.mem_singleton_self _)
      have rooted' := (rooted.evaluate file fuel _ inside).1.rooted
      have run : Yields (ScriptKit.evaluate file fuel (.expression value)) machine
        (machine.evaluate file fuel (.expression value)).1
        (machine.evaluate file fuel (.expression value)).2 := yields_run _ machine
      cases result : (machine.evaluate file fuel (.expression value)).1 with
      | ok given =>
        rw [result] at run
        exact run.bind (rooted'.lookup undeclared file span).bind_error
      | error fault =>
        rw [result] at run
        exact run.bind_error

/-- A function with a parameter and a variable, which assigns to a name that is declared nowhere; and a
call of it. -/
def strayAssignment : Program :=
  ⟨default,
    [.function default "f" ["a"] (.block default
      [.declare default "c" (.identifier default "a"),
        .assign default "b" (.identifier default "c")]),
    .call default "f" [.literal default (.boolean true)]]⟩

/-- The call has failed three scopes deep, and `b` is still undefined. -/
theorem Program.Meets.names_declared_call :
    ∃ machine, strayAssignment.Meets none machine ∧
      machine.heap.scopes.map Scope.names = #[["f"], ["a"], ["c"]] ∧
      (∀ id scope name, machine.heap.scope? id = some scope → name ∈ scope.names →
        strayAssignment.Declares name) ∧
      ¬ strayAssignment.Declares "b" ∧
      machine.evaluate none 1 (.expression (.identifier default "b")) =
        (.error (undefinedFault none default "b"), machine) := by
  have meets : strayAssignment.Meets none
      (Machine.initial.evaluate none 9 (.program strayAssignment)).2 :=
    ⟨9, _, _, .start 9, .inr rfl⟩
  have undeclared : ¬ strayAssignment.Declares "b" := by
    rw [declares_iff, Symbols.Has]
    decide
  obtain ⟨declared, missing⟩ := names_declared meets
  exact ⟨_, meets, by decide +kernel, declared, undeclared,
    (missing "b" undeclared 0 default).1⟩

/-- What is assigned comes first: its own failure hides that of the name. -/
theorem Program.undeclared_assign_divisionByZero :
    ∃ program, ofSource "x = 1 / 0;" none = .ok program ∧ ¬ program.Declares "x" ∧
      ∃ span value site, program.Part (.statement (.assign span "x" value)) ∧
        (Machine.initial.run none 9 program).1 = .error (.located none site (.divisionByZero "/")) := by
  have quotient : Grammar.Level 1 [.number (.integer 1), .symbol .divide, .number (.integer 0)]
      (.binary .divide (.literal (.number (.integer 1))) (.literal (.number (.integer 0)))) :=
    @Grammar.Level.join _ _ _ _ _ (.binary .divide) _ _ (.operand (.primary .number)) rfl (by decide)
      (.primary .number)
  have assigned : Grammar.Statement none _ (.assign "x" _) :=
    .assign (.operand (.operand (.operand (.operand (.operand quotient)))))
  obtain ⟨program, parsed, bare⟩ := @exists_ofSource "x = 1 / 0;" _ _ (by decide +kernel)
    (@Grammar.Statements.cons _ _ none [] [] assigned .nil) none
  obtain ⟨whole, body⟩ := program
  obtain ⟨_, _, rfl, first, rest⟩ := Statement.bareAll_eq_cons bare
  obtain rfl := Statement.bareAll_eq_nil rest
  obtain ⟨span, _, rfl, divided⟩ := Statement.bare_eq_assign first
  obtain ⟨site, _, _, rfl, first, second⟩ := Expression.bare_eq_binary divided
  obtain ⟨_, rfl⟩ := Expression.bare_eq_literal first
  obtain ⟨_, rfl⟩ := Expression.bare_eq_literal second
  refine ⟨_, parsed, ?_, span, _, site, .inner .whole (List.mem_singleton_self _), rfl⟩
  rw [declares_iff]
  exact Symbols.not_has_empty

end ScriptKit
