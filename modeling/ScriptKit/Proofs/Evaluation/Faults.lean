import ScriptKit.Proofs.Evaluation.Origin
import ScriptKit.Proofs.Number.Overflow
import ScriptKit.Proofs.Program.Distinction
import ScriptKit.Proofs.Program.ImportSites

/-!
How programs that were read can fail. A run fails with an error at a node of the program or with one of
two faults of large integers, and with nothing internal; an emission on its own fails only with the
first import.
-/
namespace ScriptKit

namespace Program

/-- Some run of the program comes to apply the operator to the values. -/
def Applies (program : Program) (file : Option String) (operator : BinaryOperator)
    (first second : Value) : Prop :=
  ∃ fuel site left right before middle after,
    program.Visits file (fuel + 1) (.expression (.binary site operator left right)) before ∧
    before.evaluate file fuel (.expression left) = (.ok first, middle) ∧
    middle.evaluate file fuel (.expression right) = (.ok second, after)

/-- Some run of the program comes to print the value. -/
def Prints (program : Program) (file : Option String) (value : Value) : Prop :=
  ∃ fuel site argument before after,
    program.Visits file (fuel + 1) (.statement (.print site argument)) before ∧
    before.evaluate file fuel (.expression argument) = (.ok value, after)

/-- The faults that a run of a program may have, besides the lack of fuel. -/
inductive Fails (program : Program) (file : Option String) : RunFault → Prop where
  /-- An error at a node of the program. -/
  | reported (part : program.Part node) (cause : Cause) :
      Fails program file (.located file node.place cause)
  /-- Arithmetic with an integer that is too large for a double. -/
  | outOfRange (applies : program.Applies file operator (.number first) (.number second))
      (arithmetical : operator ∈ BinaryOperator.arithmetical)
      (large : first.TooLarge ∨ second.TooLarge)
      (ranged : fault = .integerTooLarge ∨ fault = .quotientTooLarge) : Fails program file fault
  /-- An integer of too many digits is printed, or joined to a string. -/
  | undisplayable (long : Number.displayLimit ≤ value.natAbs)
      (shown : program.Prints file (.number (.integer value)) ∨
        ∃ text, program.Applies file .plus (.number (.integer value)) (.string text) ∨
          program.Applies file .plus (.string text) (.number (.integer value))) :
      Fails program file .undisplayable

end Program

theorem Value.shown_eq_error {value : Value} (failed : value.shown = .error fault) :
    fault = .undisplayable ∧
      ∃ whole, value = .number (.integer whole) ∧ Number.displayLimit ≤ whole.natAbs := by
  unfold shown at failed
  split at failed
  · cases failed
  · rename_i missing
    cases failed
    refine ⟨rfl, ?_⟩
    cases value with
    | number value =>
      cases value with
      | integer whole =>
        rw [display?, Number.display?] at missing
        split at missing
        · cases missing
        · rename_i long
          exact ⟨whole, rfl, Nat.le_of_not_lt long⟩
      | double value =>
        rw [display?, Number.display?] at missing
        split at missing <;> cases missing
    | _ => cases missing

theorem Value.isString_iff {value : Value} : value.isString ↔ ∃ text, value = .string text := by
  cases value <;> simp [isString]

/-- Joining fails when one of the two has no text; then the other is a string. -/
theorem Value.join_eq_error {left right : Value} (joined : left.isString ∨ right.isString)
    (failed : (do
      let first ← left.shown
      let second ← right.shown
      return Value.string (first ++ second)) = .error fault) :
    fault = .undisplayable ∧ ∃ whole text, Number.displayLimit ≤ whole.natAbs ∧
      (left = .number (.integer whole) ∧ right = .string text ∨
        left = .string text ∧ right = .number (.integer whole)) := by
  cases first : left.shown with
  | error other =>
    rw [first] at failed
    cases failed
    obtain ⟨same, whole, rfl, long⟩ := shown_eq_error first
    obtain ⟨text, rfl⟩ := isString_iff.mp (joined.resolve_left nofun)
    exact ⟨same, whole, text, long, .inl ⟨rfl, rfl⟩⟩
  | ok code =>
    cases second : right.shown with
    | error other =>
      rw [first, second] at failed
      cases failed
      obtain ⟨same, whole, rfl, long⟩ := shown_eq_error second
      obtain ⟨text, rfl⟩ := isString_iff.mp (joined.resolve_right nofun)
      exact ⟨same, whole, text, long, .inr ⟨rfl, rfl⟩⟩
    | ok code' =>
      rw [first, second] at failed
      cases failed

private theorem arithmetic_ne_none (listed : operator ∈ BinaryOperator.arithmetical)
    (first second : Number) :
    arithmetic operator first second ≠ none := by
  cases operator with
  | plus | minus | times | divide | modulo => exact Option.some_ne_none _
  | _ => simp [BinaryOperator.arithmetical] at listed

private theorem applyArithmetic_eq_error {first second : Number}
    (listed : operator ∈ BinaryOperator.arithmetical)
    (failed : applyArithmetic file site operator first second = .error fault) :
    (∃ cause, fault = .located file site cause) ∨
      (first.TooLarge ∨ second.TooLarge) ∧ (fault = .integerTooLarge ∨ fault = .quotientTooLarge) := by
  unfold applyArithmetic at failed
  split at failed
  · rename_i missing
    exact absurd missing (arithmetic_ne_none listed first second)
  · cases failed
  · rename_i overflow
    cases failed
    exact .inr ⟨(arithmetic_eq_error overflow).2.resolve_left nofun, .inl rfl⟩
  · rename_i overflow
    cases failed
    exact .inr ⟨(arithmetic_eq_error overflow).2.resolve_left nofun, .inr rfl⟩
  · cases failed
    exact .inl ⟨_, rfl⟩

/-- What a known operator fails with. -/
theorem applyBinary_eq_error (known : operator ∈ BinaryOperator.known)
    (failed : applyBinary file site operator left right = .error fault) :
    (∃ cause, fault = .located file site cause) ∨
    (∃ first second, left = .number first ∧ right = .number second ∧
      operator ∈ BinaryOperator.arithmetical ∧ (first.TooLarge ∨ second.TooLarge) ∧
      (fault = .integerTooLarge ∨ fault = .quotientTooLarge)) ∨
    (operator = .plus ∧ fault = .undisplayable ∧
      ∃ whole text, Number.displayLimit ≤ whole.natAbs ∧
        (left = .number (.integer whole) ∧ right = .string text ∨
          left = .string text ∧ right = .number (.integer whole))) := by
  unfold applyBinary at failed
  split at failed
  · cases failed
  rename_i unequal
  split at failed
  · cases failed
  rename_i unequal'
  split at failed
  · rename_i joined
    exact .inr (.inr ⟨joined.1, Value.join_eq_error joined.2 failed⟩)
  rename_i unjoined
  split at failed
  · split at failed
    · cases failed
    · cases failed
      exact .inl ⟨_, rfl⟩
  · rename_i unordered
    have listed : operator ∈ BinaryOperator.arithmetical := by
      cases operator with
      | equal => exact absurd rfl unequal
      | notEqual => exact absurd rfl unequal'
      | greater => exact absurd rfl unordered
      | greaterEqual => exact absurd rfl unordered
      | less => exact absurd rfl unordered
      | lessEqual => exact absurd rfl unordered
      | unknown text => simp [BinaryOperator.known] at known
      | _ => decide
    split at failed
    · rename_i first second
      refine (applyArithmetic_eq_error listed failed).imp_right fun ⟨large, ranged⟩ => ?_
      exact .inl ⟨first, second, rfl, rfl, listed, large, ranged⟩
    · cases failed
      exact .inl ⟨_, rfl⟩

namespace Program

/-- A node that a run of a program that was read comes to evaluate fails in one of these ways. -/
theorem Visits.fails (visits : Visits program file (fuel + 1) node machine)
    (parsed : ofSource source file' = .ok program)
    (raises : node.Raises file (evaluate file fuel) machine fault) : program.Fails file fault := by
  have part := visits.rooted.1
  cases raises with
  | identifier => exact .reported part _
  | assign => exact .reported part _
  | callee called => rcases called with rfl | rfl <;> exact .reported part _
  | notAFunction called => rcases called with rfl | rfl <;> exact .reported part _
  | importFile => exact .reported part _
  | print ran unshown =>
    obtain ⟨rfl, whole, rfl, long⟩ := Value.shown_eq_error unshown
    exact .undisplayable long (.inl ⟨fuel, _, _, machine, _, visits, ran⟩)
  | @binary left value middle right value' after site operator _ first second failed =>
    have applies : program.Applies file operator value value' :=
      ⟨fuel, site, left, right, machine, middle, after, visits, first, second⟩
    rcases applyBinary_eq_error (part.known parsed) failed with
      ⟨cause, rfl⟩ | ⟨_, _, rfl, rfl, listed, large, ranged⟩ |
      ⟨rfl, rfl, whole, text, long, ⟨rfl, rfl⟩ | ⟨rfl, rfl⟩⟩
    · exact .reported part cause
    · exact .outOfRange applies listed large ranged
    · exact .undisplayable long (.inr ⟨text, .inl applies⟩)
    · exact .undisplayable long (.inr ⟨text, .inr applies⟩)

end Program

/-- The faults that are not the script's. -/
def RunFault.isInternal : RunFault → Bool
  | .unknownOperator _ | .unhandledNode => true
  | _ => false

theorem Program.Fails.not_internal {program : Program} (fails : program.Fails file fault) :
    fault.isInternal = false := by
  cases fails with
  | reported part cause => rfl
  | outOfRange applies listed large ranged => rcases ranged with rfl | rfl <;> rfl
  | undisplayable long shown => rfl

/-- A run of a program that was read, in whatever file, gives a value, lacks fuel, or has one of the
faults of scripts. Its emission on its own is a text when no `import` word is among the tokens; otherwise
it is the error of the import that stands at the first one. -/
theorem Program.ofSource_outcomes (parsed : ofSource source file = .ok program) :
    (∀ file' fuel fault, (Machine.initial.run file' fuel program).1 = .error fault →
      fault.isInternal = false ∧ (fault = .outOfFuel ∨ program.Fails file' fault)) ∧
    ∃ stream, TokenStream.ofSource source = .ok stream ∧ ∀ file',
      match importStarts stream.tokens with
      | [] => ∃ code, program.emitStandalone file' = .ok code
      | start :: _ => ∃ place path, program.Part (.statement (.importFile place path)) ∧
          place.first = start ∧ program.emitStandalone file' =
            .error ⟨.importing, .importRequiresBuild path, some place, file'⟩ := by
  refine ⟨?_, ?_⟩
  · intro file' fuel fault failed
    have outcome : fault = .outOfFuel ∨ program.Fails file' fault := by
      refine ((Visits.start fuel).origin failed).imp_right ?_
      rintro ⟨fuel', raising, reached, visits, raises⟩
      exact visits.fails parsed raises
    refine ⟨?_, outcome⟩
    rcases outcome with rfl | fails
    · rfl
    · exact fails.not_internal
  · obtain ⟨stream, tokens, success⟩ := ofSource_eq_ok.mp parsed
    exact ⟨stream, tokens, emitStandalone_first success⟩

/-- The import that a run meets is not the first one of the text, which is in a function that is not
called. -/
theorem Program.ofSource_outcomes_imports :
    ∃ program, ofSource "function f() \x7bimport(\"a\");\x7d import(\"b\");" none = .ok program ∧
      (∃ site, (Machine.initial.run none 9 program).1 =
          .error (.located none site (.importNotSupported "b")) ∧
        program.Fails none (.located none site (.importNotSupported "b"))) ∧
      ∃ place path, program.Part (.statement (.importFile place path)) ∧ place.first = ⟨1, 15⟩ ∧
        program.emitStandalone none =
          .error ⟨.importing, .importRequiresBuild path, some place, none⟩ := by
  have block (next : Option Lexeme) : Grammar.Statement next _ (.block [.importFile "a"]) :=
    .block (@Grammar.Statements.cons _ _ _ [] [] .importFile .nil)
  have function (next : Option Lexeme) : Grammar.Statement next _
      (.function "f" [] (.block [.importFile "a"])) :=
    @Grammar.Statement.function _ _ _ "f" [] (block next)
  have others : Grammar.Statements none _ [.importFile "b"] :=
    @Grammar.Statements.cons _ _ none [] [] .importFile .nil
  obtain ⟨program, parsed, bare⟩ := @exists_ofSource
    "function f() \x7bimport(\"a\");\x7d import(\"b\");" _ _ (by decide +kernel)
    (.cons (function _) others) none
  have starts : (TokenStream.ofSource "function f() \x7bimport(\"a\");\x7d import(\"b\");").map
      (fun stream => importStarts stream.tokens) = .ok [⟨1, 15⟩, ⟨1, 29⟩] := by decide +kernel
  obtain ⟨runs, stream, tokens, emits⟩ := ofSource_outcomes parsed
  rw [tokens] at starts
  have listed : importStarts stream.tokens = [⟨1, 15⟩, ⟨1, 29⟩] := Except.ok.inj starts
  have first := emits none
  rw [listed] at first
  obtain ⟨whole, body⟩ := program
  obtain ⟨_, _, rfl, declared, rest⟩ := Statement.bareAll_eq_cons bare
  obtain ⟨_, _, rfl, met, none'⟩ := Statement.bareAll_eq_cons rest
  obtain ⟨_, _, rfl, _⟩ := Statement.bare_eq_function declared
  obtain ⟨site, rfl⟩ := Statement.bare_eq_importFile met
  obtain rfl := Statement.bareAll_eq_nil none'
  obtain ⟨_, outcome⟩ := runs none 9 (.located none site (.importNotSupported "b")) rfl
  exact ⟨_, parsed, ⟨site, rfl, outcome.resolve_left nofun⟩, first⟩

end ScriptKit
