import Mathlib.Data.List.Forall2
import ScriptKit.Proofs.Program.Quiet
import ScriptKit.Proofs.Program.RoundTrip

/-!
Expressions as source text, with the parentheses that precedence asks for and as many more as one
likes. Precedence is a number of each operator and says nothing of how expressions are read; yet the
text is read as the tree it was written from.
-/
namespace ScriptKit

/-- How tightly an operator binds. -/
def Infix.precedence : Infix → Nat
  | .logical .or => 1
  | .logical .and => 2
  | .binary .equal | .binary .notEqual => 3
  | .binary .greater | .binary .greaterEqual | .binary .less | .binary .lessEqual => 4
  | .binary .plus | .binary .minus => 5
  | .binary .times | .binary .divide | .binary .modulo => 6
  | .binary (.unknown _) | .logical (.unknown _) => 0

/-- Strings are written as they are: source text knows no escapes. -/
def Literal.source : Literal → String
  | .string value => "\"" ++ value ++ "\""
  | value => value.emit

/-- A text in so many pairs of parentheses. -/
def enclosed : Nat → String → String
  | 0, code => code
  | pairs + 1, code => "(" ++ enclosed pairs code ++ ")"

namespace Bare

/-- The precedence of the operator that a tree is made with. -/
def Expression.precedence? : Expression → Option Nat
  | .binary operator _ _ => some (Infix.binary operator).precedence
  | .logical operator _ _ => some (Infix.logical operator).precedence
  | .literal _ | .identifier _ | .call _ _ => none

/-- An operation. Its left operand is enclosed if that binds less tightly, its right operand also if
it binds as tightly. -/
def operation (infixed : Infix) (left right : Expression) (first second : String) : String :=
  enclosed (if left.precedence?.any (· < infixed.precedence) then 1 else 0) first ++
    " " ++ infixed.text ++ " " ++
    enclosed (if right.precedence?.any (· ≤ infixed.precedence) then 1 else 0) second

mutual

/-- The source text of an expression. `extra` says how many more pairs of parentheses there are around
each part; a part is found by the number of each operand or argument on the way to it. -/
def Expression.source (extra : List Nat → Nat) : Expression → String
  | .literal value => enclosed (extra []) value.source
  | .identifier name => enclosed (extra []) name
  | .binary operator left right =>
    enclosed (extra []) (operation (.binary operator) left right
      (left.source fun part => extra (0 :: part)) (right.source fun part => extra (1 :: part)))
  | .logical operator left right =>
    enclosed (extra []) (operation (.logical operator) left right
      (left.source fun part => extra (0 :: part)) (right.source fun part => extra (1 :: part)))
  | .call callee arguments =>
    enclosed (extra [])
      (callee ++ "(" ++ commaSeparated (Expression.sources extra 0 arguments) ++ ")")

/-- The same for arguments that are numbered from `first` on. -/
def Expression.sources (extra : List Nat → Nat) (first : Nat) : List Expression → List String
  | [] => []
  | argument :: rest =>
    argument.source (fun part => extra (first :: part)) :: Expression.sources extra (first + 1) rest

end

end Bare

/-- What expressions are written with: whole numbers of a size that can be read, strings without
quotes, and names that are no reserved words. -/
def Lexeme.Simple : Lexeme → Prop
  | .number (.integer value) => 0 ≤ value ∧ (toString value).length ≤ integerDigitLimit
  | .number (.double _) => False
  | .string value => '"' ∉ value.toList
  | .identifier name => NameText name.toList ∧ name ∉ reservedWords
  | .boolean _ | .keyword _ | .symbol _ => True

private theorem lexes_simpleName (simple : (Lexeme.identifier name).Simple) :
    Lexes refusable Apart name [.identifier name] := by
  obtain ⟨named, unreserved⟩ := simple
  rw [← String.ofList_toList (s := name)] at unreserved
  have written := Lexeme.written_word named unreserved
  rw [String.ofList_toList] at written
  exact lexes_name written

private theorem lexes_simpleLiteral {value : Literal} (simple : value.lexeme.Simple) :
    Lexes refusable Apart value.source [value.lexeme] := by
  cases value with
  | boolean value => exact lexes_boolean value
  | number value =>
    cases value with
    | double value => exact absurd simple not_false
    | integer value =>
      obtain ⟨positive, short⟩ := simple
      obtain ⟨value, rfl⟩ := Int.eq_ofNat_of_zero_le positive
      refine lexes_integer ⟨Nat.toDigits 10 value, ?_, nofun, ?_⟩
      · have digits : ∀ char ∈ Nat.toDigits 10 value, char.isDigit = true :=
          fun char => Nat.isDigit_of_mem_toDigits (by decide) (by decide)
        have spelled := Lexeme.Spelled.integer Nat.toDigits_ne_nil digits
        rwa [natOfDigits_toDigits] at spelled
      · rintro ⟨_, long⟩
        rw [← String.length_toList, toString_natCast] at short
        omega
  | string value =>
    have spelled := Lexeme.Spelled.string simple
    rw [String.ofList_toList] at spelled
    refine Lexeme.Spelled.lexes ?_ nofun ?_
    · simpa [Literal.source, Literal.lexeme] using spelled
    · rintro ⟨digits, _⟩
      have quote := digits '"' (by simp [Literal.source])
      cases quote

/-- The text is read as a phrase of the level that has this tree. -/
def Expresses (level : Nat) (code : String) (tree : Bare.Expression) : Prop :=
  ∃ phrase, Lexes False Apart code phrase ∧ Grammar.Level level phrase tree

namespace Expresses

theorem lift (spells : Expresses level code tree) (below : level ≤ level') :
    Expresses level' code tree := by
  obtain ⟨phrase, lexes, derived⟩ := spells
  exact ⟨phrase, lexes, derived.lift below⟩

theorem parentheses (spells : Expresses Grammar.levels.length code tree) :
    Expresses 0 ("(" ++ code ++ ")") tree := by
  obtain ⟨phrase, lexes, derived⟩ := spells
  have closed := (closed_parenOpen.before lexes).close (by decide) closed_parenClose
  exact ⟨_, closed.weaken, .primary (.parentheses derived)⟩

/-- In parentheses a text may stand at any level. -/
theorem enclosed (spells : Expresses level code tree) (within : level ≤ Grammar.levels.length)
    (pairs : Nat) (fits : pairs = 0 → level ≤ level') :
    Expresses level' (ScriptKit.enclosed pairs code) tree := by
  have more : Expresses (if pairs = 0 then level else 0) (ScriptKit.enclosed pairs code) tree := by
    clear fits
    induction pairs with
    | zero => exact spells
    | succ pairs ih =>
      refine parentheses (ih.lift ?_)
      split
      · exact within
      · exact Nat.zero_le _
  refine more.lift ?_
  split
  · rename_i none
    exact fits none
  · exact Nat.zero_le _

end Expresses

/-- The loosest operators have the highest level. -/
theorem Infix.level_of_precedence {infixed : Infix} (known : infixed.sign? = some sign) :
    1 ≤ infixed.precedence ∧ infixed.precedence ≤ Grammar.levels.length ∧
      ∃ operators, Grammar.levels[Grammar.levels.length - infixed.precedence]? = some operators ∧
        (sign, infixed) ∈ operators := by
  cases infixed with
  | binary operator =>
    cases operator <;> cases known <;> exact ⟨by decide, by decide, _, rfl, by decide⟩
  | logical operator =>
    cases operator <;> cases known <;> exact ⟨by decide, by decide, _, rfl, by decide⟩

namespace Bare

/-- The first level at which a tree stands without parentheses. -/
def Expression.level (tree : Expression) : Nat :=
  match tree.precedence? with
  | none => 0
  | some precedence => Grammar.levels.length + 1 - precedence

theorem Expression.level_le {holds : Lexeme → Prop} {tree : Expression} (used : tree.Uses holds) :
    tree.level ≤ Grammar.levels.length := by
  cases tree with
  | binary operator left right =>
    obtain ⟨⟨sign, known, _⟩, _⟩ := used
    have := (Infix.level_of_precedence known).1
    simp only [level, precedence?]
    omega
  | logical operator left right =>
    obtain ⟨⟨sign, known, _⟩, _⟩ := used
    have := (Infix.level_of_precedence known).1
    simp only [level, precedence?]
    omega
  | _ => exact Nat.zero_le _

private theorem spells_operation {holds : Lexeme → Prop} {infixed : Infix} {left right : Expression}
    (used : infixed.Uses holds) (usedLeft : left.Uses holds) (usedRight : right.Uses holds)
    (before : Expresses left.level first left) (after : Expresses right.level second right) :
    Expresses (Grammar.levels.length + 1 - infixed.precedence)
      (operation infixed left right first second) (infixed.join left right) := by
  obtain ⟨sign, known, _⟩ := used
  obtain ⟨positive, bounded, operators, listed, member⟩ := Infix.level_of_precedence known
  -- The right operand stands at the level below that of the operator, the left one at the same.
  generalize depth : Grammar.levels.length - infixed.precedence = level at listed
  have same : Grammar.levels.length + 1 - infixed.precedence = level + 1 := by omega
  have head : Expresses (level + 1) _ left := before.enclosed (Expression.level_le usedLeft)
    (if left.precedence?.any (· < infixed.precedence) then 1 else 0) (by
      intro none
      cases found : left.precedence? with
      | none => simp [Expression.level, found]
      | some precedence =>
        simp only [found, Option.any_some, decide_eq_true_eq] at none
        simp only [Expression.level, found]
        split at none <;> omega)
  have tail : Expresses level _ right := after.enclosed (Expression.level_le usedRight)
    (if right.precedence?.any (· ≤ infixed.precedence) then 1 else 0) (by
      intro none
      cases found : right.precedence? with
      | none => simp [Expression.level, found]
      | some precedence =>
        simp only [found, Option.any_some, decide_eq_true_eq] at none
        simp only [Expression.level, found]
        split at none <;> omega)
  obtain ⟨phrase, lexes, derived⟩ := head
  obtain ⟨phrase', lexes', derived'⟩ := tail
  have symbol : Lexes False Apart infixed.text [.symbol sign] := by
    rw [infixed.text_eq known]
    exact reads_symbol sign
  have opened := ((lexes.close (by decide) closed_blank).before symbol).close (by decide) closed_blank
  have joined := opened.before lexes'
  rw [same]
  refine ⟨_, joined, ?_⟩
  simpa using derived.join listed member derived'

/-- Texts of arguments, each with its phrase. -/
theorem spells_arguments (spells : List.Forall₂ (Expresses Grammar.levels.length) codes trees) :
    ∃ items : List (String × List Lexeme), items.map Prod.fst = codes ∧
      (∀ item ∈ items, Lexes False Apart item.1 item.2) ∧
      Grammar.Arguments (commas (items.map Prod.snd)) trees ∧
      Grammar.MoreArguments ((items.map Prod.snd).flatMap (.symbol .comma :: ·)) trees := by
  induction spells with
  | nil => exact ⟨[], rfl, List.forall_mem_nil _, .none, .none⟩
  | cons first _ ih =>
    obtain ⟨phrase, lexes, derived⟩ := first
    obtain ⟨items, rfl, all, _, more⟩ := ih
    exact ⟨(_, phrase) :: items, rfl, List.forall_mem_cons.mpr ⟨lexes, all⟩, .some derived more,
      .some derived more⟩

private theorem spells_call (named : Lexes False Apart callee [.identifier callee])
    (spells : List.Forall₂ (Expresses Grammar.levels.length) codes trees) :
    Expresses 0 (callee ++ "(" ++ commaSeparated codes ++ ")") (.call callee trees) := by
  obtain ⟨items, rfl, all, derived, _⟩ := spells_arguments spells
  have opened := named.close (by decide) closed_parenOpen
  have listed := opened.before (lexes_commaSeparated Prod.fst Prod.snd items all)
  have closed := listed.close (by decide) closed_parenClose
  refine ⟨_, closed.weaken, .primary ?_⟩
  simpa using Grammar.Primary.call derived

private theorem primary_literal (value : Literal) :
    Grammar.Primary [value.lexeme] (.literal value) := by
  cases value with
  | boolean value => exact .boolean
  | number value => exact .number
  | string value => exact .string

mutual

/-- The text of an expression spells it at its own level, however many pairs are added. -/
theorem Expression.spells : (tree : Expression) → tree.Uses Lexeme.Simple →
    (extra : List Nat → Nat) → Expresses tree.level (tree.source extra) tree
  | .literal value, used, extra => by
    have spells : Expresses 0 value.source (.literal value) :=
      ⟨_, lexes_simpleLiteral used, .primary (primary_literal value)⟩
    exact spells.enclosed (Nat.zero_le _) _ fun _ => Nat.zero_le _
  | .identifier name, used, extra => by
    have spells : Expresses 0 name (.identifier name) :=
      ⟨_, lexes_simpleName used, .primary .identifier⟩
    exact spells.enclosed (Nat.zero_le _) _ fun _ => Nat.zero_le _
  | .binary operator left right, used, extra => by
    obtain ⟨sign, first, second⟩ := id used
    exact (spells_operation sign first second (left.spells first _) (right.spells second _)).enclosed
      (Expression.level_le used) _ fun _ => Nat.le_refl _
  | .logical operator left right, used, extra => by
    obtain ⟨sign, first, second⟩ := id used
    exact (spells_operation sign first second (left.spells first _) (right.spells second _)).enclosed
      (Expression.level_le used) _ fun _ => Nat.le_refl _
  | .call callee arguments, ⟨named, all⟩, extra =>
    (spells_call (lexes_simpleName named) (Expression.spellsAll arguments all extra 0)).enclosed
      (Nat.zero_le _) _ fun _ => Nat.zero_le _

theorem Expression.spellsAll : (trees : List Expression) → Expression.AllUse Lexeme.Simple trees →
    (extra : List Nat → Nat) → (first : Nat) →
    List.Forall₂ (Expresses Grammar.levels.length) (Expression.sources extra first trees) trees
  | [], _, _, _ => .nil
  | tree :: trees, ⟨used, others⟩, extra, first =>
    .cons ((tree.spells used _).lift (Expression.level_le used))
      (Expression.spellsAll trees others extra (first + 1))

end

end Bare

/-- The text of an expression, with the parentheses that precedence asks for and any others, is read
as the expression. -/
theorem Program.ofSource_expression (tree : Bare.Expression) (simple : tree.Uses Lexeme.Simple)
    (extra : List Nat → Nat) (file : Option String) :
    ∃ program, ofSource ("let x = " ++ tree.source extra ++ ";") file = .ok program ∧
      program.bare = [.declare "x" tree] := by
  obtain ⟨phrase, lexes, derived⟩ := (tree.spells simple extra).lift (Bare.Expression.level_le simple)
  have named : Lexes False Apart "x" [.identifier "x"] :=
    lexes_simpleName ⟨.intro rfl (List.forall_mem_nil _), by decide⟩
  have closed : Closed False ("let x = " ++ tree.source extra ++ ";") _ :=
    (closed_declare named lexes).of_eq rfl
  obtain ⟨stream, tokens, same⟩ := closed.ofSource_eq_ok
  have declared : Grammar.Statement none _ (.declare "x" tree) := .declare derived
  have derives : Grammar.Derives _ [.declare "x" tree] :=
    @Grammar.Statements.cons _ _ none [] [] declared .nil
  rw [List.append_nil, ← same] at derives
  obtain ⟨program, success, bare⟩ := derives.parsed
  exact ⟨program, ofSource_eq_ok.mpr ⟨stream, tokens, success⟩, bare⟩

/-- On the right of a difference, another one needs parentheses and a product does not. -/
def nestedDifference : Bare.Expression :=
  .binary .minus (.identifier "a") (.binary .minus (.identifier "b")
    (.binary .times (.literal (.number (.integer 2))) (.call "f" [.literal (.string "\\n")])))

/-- Two pairs around the product, and one around the argument. -/
def morePairs (part : List Nat) : Nat :=
  if part = [1, 1] then 2 else if part = [1, 1, 1, 0] then 1 else 0

theorem Program.ofSource_expression_nested :
    nestedDifference.Uses Lexeme.Simple ∧
    nestedDifference.source (fun _ => 0) = "a - (b - 2 * f(\"\\n\"))" ∧
    nestedDifference.source morePairs = "a - (b - ((2 * f((\"\\n\")))))" ∧
    ∃ program, ofSource "let x = a - (b - ((2 * f((\"\\n\")))));" none = .ok program ∧
      program.bare = [.declare "x" nestedDifference] := by
  have name (char : Char) (start : isNameStart char = true)
      (unreserved : String.ofList [char] ∉ reservedWords) :
      (Lexeme.identifier (String.ofList [char])).Simple := by
    refine ⟨?_, unreserved⟩
    rw [String.toList_ofList]
    exact .intro start (List.forall_mem_nil _)
  have unquoted : '"' ∉ "\\n".toList := by decide
  have simple : nestedDifference.Uses Lexeme.Simple :=
    ⟨⟨.minus, rfl, trivial⟩, name 'a' rfl (by decide), ⟨.minus, rfl, trivial⟩,
      name 'b' rfl (by decide), ⟨.multiply, rfl, trivial⟩, ⟨by decide, by decide⟩,
      name 'f' rfl (by decide), unquoted, trivial⟩
  exact ⟨simple, by decide, by decide, ofSource_expression nestedDifference simple morePairs none⟩

end ScriptKit
