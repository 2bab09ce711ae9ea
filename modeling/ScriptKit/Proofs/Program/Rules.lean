import ScriptKit.Program.Parser

/-!
The rules of the parser without their results. A reading is then a recognizer: it succeeds or not, and
leaves some tokens. Each rule is a sequence of recognizers, chosen by the next token.
-/
namespace ScriptKit

abbrev Recognizer := List Token → Bool × List Token

namespace Recognizer

/-- Whether a reading succeeds, and the tokens that it leaves. -/
def outcome (left : α → List Token) : Except Rejection α → Bool × List Token
  | .ok value => (true, left value)
  | .error rejection => (false, rejection.rest)

/-- Goes on from where another recognizer succeeded. -/
def proceed (reached : Bool × List Token) (next : Recognizer) : Bool × List Token :=
  if reached.1 then next reached.2 else reached

def andThen (first next : Recognizer) : Recognizer := fun tokens => proceed (first tokens) next

theorem andThen_accepted {first next : Recognizer} (accepted : (first tokens).1 = true) :
    first.andThen next tokens = next (first tokens).2 := if_pos accepted

theorem andThen_refused {first next : Recognizer} (refused : (first tokens).1 = false) :
    first.andThen next tokens = first tokens := by
  simp [andThen, proceed, refused]

theorem outcome_bind {left : α → List Token} {left' : β → List Token} {next : Recognizer}
    {reading : Except Rejection α} {continued : α → Except Rejection β}
    (same : ∀ value, outcome left' (continued value) = next (left value)) :
    outcome left' (reading >>= continued) = proceed (outcome left reading) next := by
  cases reading with
  | ok value => exact same value
  | error rejection => rfl

theorem outcome_last {left : α → List Token} {left' : β → List Token}
    {reading : Except Rejection α} {continued : α → Except Rejection β}
    (same : ∀ value, outcome left' (continued value) = (true, left value)) :
    outcome left' (reading >>= continued) = outcome left reading := by
  cases reading with
  | ok value => exact same value
  | error rejection => rfl

def recognize (read : (tokens : List Token) → Except Rejection (Parsed α tokens.length)) :
    Recognizer :=
  fun tokens => outcome Parsed.rest (read tokens)

theorem shorter {read : (tokens : List Token) → Except Rejection (Parsed α tokens.length)}
    (accepted : (recognize read tokens).1 = true) :
    (recognize read tokens).2.length < tokens.length := by
  unfold recognize at accepted ⊢
  cases reading : read tokens with
  | ok parsed => exact parsed.within
  | error rejection =>
    rw [reading] at accepted
    cases accepted

section rules

abbrev sign (symbol : Symbol) : Recognizer := recognize (expectSymbol symbol)

abbrev name : Recognizer := recognize expectIdentifier

abbrev operand (tiers : Nat) : Recognizer := recognize (parseTiers tiers)

abbrev expression : Recognizer := operand tierCount

abbrev arguments : Recognizer := recognize parseArguments

abbrev condition : Recognizer := recognize parseCondition

abbrev statement : Recognizer := recognize parseStatement

/-- The chain of a tier, whatever it goes on from. -/
def chain (tier : Nat) : Recognizer :=
  fun tokens => outcome Parsed.rest (parseChain tier default default default tokens)

/-- Statements up to the end of the tokens. -/
def statements : Recognizer :=
  fun tokens => outcome (fun _ => []) (parseStatements default tokens)

/-- A name is a call where a parenthesis opens after it. -/
def callOrNot : Recognizer
  | ⟨.symbol .leftParen, _⟩ :: rest => arguments rest
  | tokens => (true, tokens)

def assignmentOrCall : Recognizer
  | ⟨.symbol .assign, _⟩ :: rest => expression.andThen (sign .semicolon) rest
  | ⟨.symbol .leftParen, _⟩ :: rest => arguments.andThen (sign .semicolon) rest
  | tokens => (false, tokens)

def otherwise : Recognizer
  | ⟨.keyword .elseWord, _⟩ :: rest => statement rest
  | tokens => (true, tokens)

theorem outcome_parseChain (tier : Nat) (start : Position) (left : Expression) (last : Position)
    (tokens : List Token) :
    outcome Parsed.rest (parseChain tier start left last tokens) = chain tier tokens := by
  match tokens with
  | [] => rw [chain, parseChain, parseChain]; rfl
  | token :: rest =>
    rw [chain, parseChain, parseChain]
    split
    · rfl
    · cases second : parseTiers tier rest with
      | error rejection => rfl
      | ok right =>
        have same (start : Position) (left : Expression) (last : Position) :=
          outcome_parseChain tier start left last right.rest
        refine ((outcome_last fun _ => rfl).trans (same _ _ _)).trans ?_
        exact ((outcome_last fun _ => rfl).trans (same _ _ _)).symm
termination_by tokens.length
decreasing_by grind

theorem chain_sign (found : infixOf? tier token.lexeme = some infixed) (rest : List Token) :
    chain tier (token :: rest) = (operand tier).andThen (chain tier) rest := by
  rw [chain, parseChain, found]
  exact outcome_bind fun right => (outcome_last fun _ => rfl).trans (outcome_parseChain ..)

theorem chain_end (found : infixOf? tier token.lexeme = none) (rest : List Token) :
    chain tier (token :: rest) = (true, token :: rest) := by
  rw [chain, parseChain, found]
  rfl

theorem operand_succ (tier : Nat) (token : Token) (rest : List Token) :
    operand (tier + 1) (token :: rest) = (operand tier).andThen (chain tier) (token :: rest) := by
  rw [operand, recognize, parseTiers]
  exact outcome_bind fun left => (outcome_last fun _ => rfl).trans (outcome_parseChain ..)

theorem operand_zero (tokens : List Token) : operand 0 tokens = recognize parsePrimary tokens := by
  rw [operand, recognize, parseTiers]
  rfl

theorem operand_nil (tiers : Nat) : operand tiers [] = (false, []) := by
  cases tiers with
  | zero => rw [operand_zero, recognize, parsePrimary.eq_def]; rfl
  | succ tier => rw [operand, recognize, parseTiers]; rfl

theorem primary_identifier (identifier : String) (position : Position) (tokens : List Token) :
    recognize parsePrimary (⟨.identifier identifier, position⟩ :: tokens) = callOrNot tokens := by
  unfold callOrNot recognize
  split
  · rw [parsePrimary]
    exact outcome_last fun _ => rfl
  · rw [parsePrimary]
    · rfl
    · assumption

theorem primary_parentheses (position : Position) (tokens : List Token) :
    recognize parsePrimary (⟨.symbol .leftParen, position⟩ :: tokens) =
      expression.andThen (sign .rightParen) tokens := by
  rw [recognize, parsePrimary]
  exact outcome_bind fun _ => outcome_last fun _ => rfl

theorem primary_keyword (word : Keyword) (position : Position) (rest : List Token) :
    recognize parsePrimary (⟨.keyword word, position⟩ :: rest) =
      (false, ⟨.keyword word, position⟩ :: rest) := by
  rw [recognize, parsePrimary.eq_def]
  rfl

theorem primary_symbol (other : symbol ≠ .leftParen) (position : Position) (rest : List Token) :
    recognize parsePrimary (⟨.symbol symbol, position⟩ :: rest) =
      (false, ⟨.symbol symbol, position⟩ :: rest) := by
  rw [recognize, parsePrimary]
  · rfl
  all_goals
    intros
    rename_i same
    cases same
  exact other rfl

/-- The next token is another one. -/
theorem apart (other : token.lexeme ≠ lexeme) (position : Position) (others : List Token) :
    token :: rest = ⟨lexeme, position⟩ :: others → False := by
  rintro ⟨⟩
  exact other rfl

theorem arguments_none (position : Position) (rest : List Token) :
    arguments (⟨.symbol .rightParen, position⟩ :: rest) = (true, rest) := by
  rw [arguments, recognize, parseArguments]
  rfl

theorem arguments_some
    (other : ∀ position rest, tokens = ⟨.symbol .rightParen, position⟩ :: rest → False) :
    arguments tokens = expression.andThen (recognize parseMoreArguments) tokens := by
  rw [arguments, recognize, parseArguments]
  · exact outcome_bind fun _ => outcome_last fun _ => rfl
  · exact other

theorem arguments_nil : arguments [] = (false, []) := by
  have refused : expression [] = (false, []) := operand_nil tierCount
  rw [arguments_some (by simp), andThen_refused (by rw [refused]), refused]

theorem moreArguments_comma (position : Position) (tokens : List Token) :
    recognize parseMoreArguments (⟨.symbol .comma, position⟩ :: tokens) =
      expression.andThen (recognize parseMoreArguments) tokens := by
  rw [recognize, parseMoreArguments]
  exact outcome_bind fun _ => outcome_last fun _ => rfl

theorem moreArguments_close
    (other : ∀ position rest, tokens = ⟨.symbol .comma, position⟩ :: rest → False) :
    recognize parseMoreArguments tokens = sign .rightParen tokens := by
  rw [recognize, parseMoreArguments]
  · exact outcome_last fun _ => rfl
  · exact other

theorem moreParameters_comma (position : Position) (tokens : List Token) :
    recognize parseMoreParameters (⟨.symbol .comma, position⟩ :: tokens) =
      name.andThen (recognize parseMoreParameters) tokens := by
  rw [recognize, parseMoreParameters]
  exact outcome_bind fun _ => outcome_last fun _ => rfl

theorem moreParameters_close
    (other : ∀ position rest, tokens = ⟨.symbol .comma, position⟩ :: rest → False) :
    recognize parseMoreParameters tokens = sign .rightParen tokens := by
  rw [recognize, parseMoreParameters]
  · exact outcome_last fun _ => rfl
  · exact other

theorem parameters_none (position : Position) (rest : List Token) :
    recognize parseParameters (⟨.symbol .rightParen, position⟩ :: rest) = (true, rest) := rfl

theorem parameters_some
    (other : ∀ position rest, tokens = ⟨.symbol .rightParen, position⟩ :: rest → False) :
    recognize parseParameters tokens = name.andThen (recognize parseMoreParameters) tokens := by
  rw [recognize, parseParameters]
  · exact outcome_bind fun _ => outcome_last fun _ => rfl
  · exact other

theorem condition_eq (tokens : List Token) :
    condition tokens =
      (sign .leftParen).andThen (expression.andThen (sign .rightParen)) tokens := by
  rw [condition, recognize, parseCondition]
  exact outcome_bind fun _ => outcome_bind fun _ => outcome_last fun _ => rfl

theorem statement_let (start : Position) (tokens : List Token) :
    statement (⟨.keyword .letWord, start⟩ :: tokens) =
      name.andThen ((sign .assign).andThen (expression.andThen (sign .semicolon))) tokens := by
  rw [statement, recognize, parseStatement]
  exact outcome_bind fun _ => outcome_bind fun _ => outcome_bind fun _ => outcome_last fun _ => rfl

theorem statement_if (start : Position) (tokens : List Token) :
    statement (⟨.keyword .ifWord, start⟩ :: tokens) =
      condition.andThen (statement.andThen otherwise) tokens := by
  rw [statement, recognize, parseStatement]
  refine outcome_bind fun _ => outcome_bind fun consequent => ?_
  split
  · rename_i position others following
    exact (outcome_last fun _ => rfl).trans (congrArg otherwise following).symm
  · rename_i apart
    rw [otherwise]
    · rfl
    · exact apart

theorem statement_while (start : Position) (tokens : List Token) :
    statement (⟨.keyword .whileWord, start⟩ :: tokens) = condition.andThen statement tokens := by
  rw [statement, recognize, parseStatement]
  exact outcome_bind fun _ => outcome_last fun _ => rfl

theorem statement_function (start : Position) (tokens : List Token) :
    statement (⟨.keyword .functionWord, start⟩ :: tokens) =
      name.andThen ((sign .leftParen).andThen
        ((recognize parseParameters).andThen statement)) tokens := by
  rw [statement, recognize, parseStatement]
  exact outcome_bind fun _ => outcome_bind fun _ => outcome_bind fun _ => outcome_last fun _ => rfl

theorem statement_return (start : Position) (tokens : List Token) :
    statement (⟨.keyword .returnWord, start⟩ :: tokens) =
      expression.andThen (sign .semicolon) tokens := by
  rw [statement, recognize, parseStatement]
  exact outcome_bind fun _ => outcome_last fun _ => rfl

theorem statement_print (start : Position) (tokens : List Token) :
    statement (⟨.keyword .printWord, start⟩ :: tokens) =
      condition.andThen (sign .semicolon) tokens := by
  rw [statement, recognize, parseStatement]
  exact outcome_bind fun _ => outcome_last fun _ => rfl

theorem statement_import (start : Position) (tokens : List Token) :
    statement (⟨.keyword .importWord, start⟩ :: tokens) =
      (sign .leftParen).andThen ((recognize expectString).andThen
        ((sign .rightParen).andThen (sign .semicolon))) tokens := by
  rw [statement, recognize, parseStatement]
  exact outcome_bind fun _ => outcome_bind fun _ => outcome_bind fun _ => outcome_last fun _ => rfl

theorem statement_identifier (identifier : String) (start : Position) (tokens : List Token) :
    statement (⟨.identifier identifier, start⟩ :: tokens) = assignmentOrCall tokens := by
  unfold assignmentOrCall
  rw [statement, recognize]
  split
  · rw [parseStatement]
    exact outcome_bind fun _ => outcome_last fun _ => rfl
  · rw [parseStatement]
    exact outcome_bind fun _ => outcome_last fun _ => rfl
  · rw [parseStatement]
    · rfl
    · assumption
    · assumption

theorem statement_block (start : Position) (tokens : List Token) :
    statement (⟨.symbol .leftBrace, start⟩ :: tokens) = recognize parseBlock tokens := by
  rw [statement, recognize, parseStatement]
  exact outcome_last fun _ => rfl

theorem statement_nil : statement [] = (false, []) := by
  rw [statement, recognize, parseStatement.eq_def]
  rfl

/-- Whether a statement begins with the lexeme. -/
def starts : Lexeme → Bool
  | .keyword word => word != .elseWord
  | .identifier _ => true
  | .symbol symbol => symbol == .leftBrace
  | _ => false

theorem statement_refused (strange : starts token.lexeme = false) (rest : List Token) :
    statement (token :: rest) = (false, token :: rest) := by
  rw [statement, recognize, parseStatement]
  · rfl
  -- Every other rule begins with a lexeme that a statement begins with.
  all_goals
    intros
    rename_i same
    cases same
    cases strange

theorem block_nil : recognize parseBlock [] = (false, []) := by
  rw [recognize, parseBlock]
  rfl

theorem block_end (position : Position) (rest : List Token) :
    recognize parseBlock (⟨.symbol .rightBrace, position⟩ :: rest) = (true, rest) := by
  rw [recognize, parseBlock]
  rfl

theorem block_some (other : token.lexeme ≠ .symbol .rightBrace) (rest : List Token) :
    recognize parseBlock (token :: rest) =
      statement.andThen (recognize parseBlock) (token :: rest) := by
  rw [recognize, parseBlock]
  · exact outcome_bind fun _ => outcome_last fun _ => rfl
  · exact List.cons_ne_nil _ _
  · rintro _ _ ⟨⟩
    exact other rfl

theorem outcome_parseStatements (last : Position) (tokens : List Token) :
    outcome (fun _ => []) (parseStatements last tokens) = statements tokens := by
  rw [statements, parseStatements.eq_def last, parseStatements.eq_def default]
  cases tokens <;> rfl

theorem statements_nil : statements [] = (true, []) := by
  rw [statements, parseStatements]
  rfl

theorem statements_some (token : Token) (rest : List Token) :
    statements (token :: rest) = statement.andThen statements (token :: rest) := by
  rw [statements, parseStatements]
  · exact outcome_bind fun _ => (outcome_last fun _ => rfl).trans (outcome_parseStatements ..)
  · exact List.cons_ne_nil _ _

end rules

end Recognizer
end ScriptKit
