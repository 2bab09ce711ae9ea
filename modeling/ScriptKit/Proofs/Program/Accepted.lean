import ScriptKit.Proofs.Program.Located

/-!
What the parser accepts is derivable. Without places, the rules by which it reads are those of the
grammar.
-/
namespace ScriptKit

theorem infixOf?_eq_some {tier : Nat} {lexeme : Lexeme} {infixed : Infix} :
    infixOf? tier lexeme = some infixed ↔
      ∃ operators sign, Grammar.levels[tier]? = some operators ∧ (sign, infixed) ∈ operators ∧
        lexeme = .symbol sign := by
  constructor
  · intro found
    unfold infixOf? at found
    split at found
    case h_14 => cases found
    all_goals
      obtain ⟨rfl, same⟩ := Option.ite_none_right_eq_some.mp found
      cases same
      exact ⟨_, _, rfl, by simp, rfl⟩
  · rintro ⟨operators, sign, listed, member, rfl⟩
    have agree : ∀ entry ∈ operators, infixOf? tier (.symbol entry.1) = some entry.2 := by
      match tier with
      | 0 | 1 | 2 | 3 | 4 | 5 =>
        cases listed
        decide
      | tier + 6 => simp [Grammar.levels] at listed
    exact agree _ member

theorem Infix.bare_apply (infixed : Infix) (span : Span) (left right : Expression) :
    (infixed.apply span left right).bare = infixed.join left.bare right.bare := by
  cases infixed <;> simp [Infix.apply, Infix.join, Expression.bare]

namespace Located

mutual

theorem Level.derived : Level level phrase stretch tree →
    Grammar.Level level (lexemes phrase) tree.bare
  | .primary inner => .primary inner.derived
  | .operand inner => .operand inner.derived
  | .join left found right => by
    obtain ⟨operators, sign, listed, member, rfl⟩ := infixOf?_eq_some.mp found
    rw [lexemes_append, Infix.bare_apply]
    exact .join left.derived listed member right.derived

theorem Primary.derived : Primary phrase stretch tree → Grammar.Primary (lexemes phrase) tree.bare
  | .number => .number
  | .string => .string
  | .boolean => .boolean
  | .identifier => .identifier
  | .call inner => by
    rw [lexemes_cons, lexemes_cons, lexemes_append]
    exact .call inner.derived
  | .parentheses inner => by
    rw [lexemes_cons, lexemes_append]
    exact .parentheses inner.derived

theorem Arguments.derived : Arguments phrase trees →
    Grammar.Arguments (lexemes phrase) (Expression.bareAll trees)
  | .none => .none
  | .some first others => by
    rw [lexemes_append]
    exact .some first.derived others.derived

theorem MoreArguments.derived : MoreArguments phrase trees →
    Grammar.MoreArguments (lexemes phrase) (Expression.bareAll trees)
  | .none => .none
  | .some next others => by
    rw [lexemes_cons, lexemes_append]
    exact .some next.derived others.derived

end

mutual

theorem Statement.derived : Statement next phrase stretch tree →
    Grammar.Statement next (lexemes phrase) tree.bare
  | .declare value => by
    simp only [lexemes_cons, lexemes_append]
    exact .declare value.derived
  | .assign value => by
    simp only [lexemes_cons, lexemes_append]
    exact .assign value.derived
  | .call inner => by
    simp only [lexemes_cons, lexemes_append]
    exact .call inner.derived
  | .giveBack argument => by
    simp only [lexemes_cons, lexemes_append]
    exact .giveBack argument.derived
  | .print argument => by
    simp only [lexemes_cons, lexemes_append]
    exact .print argument.derived
  | .importFile => .importFile
  | .block body => by
    simp only [lexemes_cons, lexemes_append]
    exact .block body.derived
  | .branch test consequent closed => by
    simp only [lexemes_cons, lexemes_append]
    exact .branch test.derived consequent.derived closed
  | .alternative test consequent alternate => by
    simp only [lexemes_cons, lexemes_append]
    exact .alternative test.derived consequent.derived alternate.derived
  | .loop test body => by
    simp only [lexemes_cons, lexemes_append]
    exact .loop test.derived body.derived
  | .function listed body => by
    simp only [lexemes_cons, lexemes_append, listed]
    exact .function body.derived

theorem Statements.derived : Statements next phrase trees →
    Grammar.Statements next (lexemes phrase) (Statement.bareAll trees)
  | .nil => .nil
  | .cons first others => by
    rw [lexemes_append]
    exact .cons first.derived others.derived

end

end Located

theorem parseStatement_accepted {tokens : List Token} {parsed : Parsed Statement tokens.length}
    (success : parseStatement tokens = .ok parsed) :
    ∃ phrase, lexemes tokens = phrase ++ lexemes parsed.rest ∧
      Grammar.Statement (lexemes parsed.rest).head? phrase parsed.value.bare := by
  obtain ⟨phrase, start, taken, located⟩ := Located.parseStatement_located success
  exact ⟨lexemes phrase, by rw [← lexemes_append, ← taken], located.derived⟩

theorem parseStatements_accepted {last : Position} {tokens : List Token}
    {parsed : List Statement × Position} (success : parseStatements last tokens = .ok parsed) :
    Grammar.Derives (lexemes tokens) (Statement.bareAll parsed.1) :=
  (Located.parseStatements_located success).derived

end ScriptKit
