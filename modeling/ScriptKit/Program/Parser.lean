import ScriptKit.Program
import ScriptKit.Token.Stream

/-!
Reading tokens as a program, with one token of lookahead and no way back. A result carries the proof
that tokens were used up, and a rejection carries the tokens from the offending one on.
-/
namespace ScriptKit

/-- What would have been accepted. -/
inductive Expected where
  | kind (wanted : TokenKind)
  | value
  | assignmentOrCall
  | statement
deriving DecidableEq

structure Rejection where
  expected : Expected
  rest : List Token
deriving DecidableEq

/-- A value read from tokens, where its last token stands, and fewer than `bound` tokens after it. -/
structure Parsed (α : Type) (bound : Nat) where
  value : α
  last : Position
  rest : List Token
  within : rest.length < bound

namespace Parsed

theorem rest_lt {α : Type} {bound : Nat} (parsed : Parsed α bound) :
    parsed.rest.length < bound := parsed.within

grind_pattern rest_lt => parsed.rest

end Parsed

def expectSymbol (symbol : Symbol) (tokens : List Token) :
    Except Rejection (Parsed Unit tokens.length) :=
  match tokens with
  | [] => .error ⟨.kind (.symbol symbol), []⟩
  | token :: rest =>
    if token.lexeme = .symbol symbol then .ok ⟨(), token.position, rest, by simp⟩
    else .error ⟨.kind (.symbol symbol), token :: rest⟩

def expectIdentifier (tokens : List Token) : Except Rejection (Parsed String tokens.length) :=
  match tokens with
  | ⟨.identifier name, position⟩ :: rest => .ok ⟨name, position, rest, by simp⟩
  | _ => .error ⟨.kind .identifier, tokens⟩

def expectString (tokens : List Token) : Except Rejection (Parsed String tokens.length) :=
  match tokens with
  | ⟨.string text, position⟩ :: rest => .ok ⟨text, position, rest, by simp⟩
  | _ => .error ⟨.kind .string, tokens⟩

/-- An operator between two operands. -/
inductive Infix where
  | binary (operator : BinaryOperator)
  | logical (operator : LogicalOperator)
deriving DecidableEq

def Infix.apply (infixed : Infix) (span : Span) (left right : Expression) : Expression :=
  match infixed with
  | .binary operator => .binary span operator left right
  | .logical operator => .logical span operator left right

/-- The operators of a tier; tier zero binds most tightly. -/
def infixOf? (tier : Nat) : Lexeme → Option Infix
  | .symbol .multiply => if tier = 0 then some (.binary .times) else none
  | .symbol .divide => if tier = 0 then some (.binary .divide) else none
  | .symbol .modulo => if tier = 0 then some (.binary .modulo) else none
  | .symbol .plus => if tier = 1 then some (.binary .plus) else none
  | .symbol .minus => if tier = 1 then some (.binary .minus) else none
  | .symbol .greater => if tier = 2 then some (.binary .greater) else none
  | .symbol .greaterEquals => if tier = 2 then some (.binary .greaterEqual) else none
  | .symbol .less => if tier = 2 then some (.binary .less) else none
  | .symbol .lessEquals => if tier = 2 then some (.binary .lessEqual) else none
  | .symbol .equals => if tier = 3 then some (.binary .equal) else none
  | .symbol .notEquals => if tier = 3 then some (.binary .notEqual) else none
  | .symbol .and => if tier = 4 then some (.logical .and) else none
  | .symbol .or => if tier = 5 then some (.logical .or) else none
  | _ => none

def tierCount : Nat := 6

mutual

/-- An expression whose operators are of the first `tiers` tiers, unless in parentheses. -/
def parseTiers (tiers : Nat) (tokens : List Token) :
    Except Rejection (Parsed Expression tokens.length) :=
  match tiers, tokens with
  | 0, tokens => parsePrimary tokens
  | _ + 1, [] => .error ⟨.value, []⟩
  | tier + 1, token :: rest => do
    let left ← parseTiers tier (token :: rest)
    let chain ← parseChain tier token.position left.value left.last left.rest
    return ⟨chain.value, chain.last, chain.rest, by grind⟩
termination_by (tokens.length, tiers + 1)
decreasing_by all_goals grind

/-- The operators of a tier and their right operands after a first operand; they group to the left. -/
def parseChain (tier : Nat) (start : Position) (left : Expression) (last : Position)
    (tokens : List Token) : Except Rejection (Parsed Expression (tokens.length + 1)) :=
  match tokens with
  | [] => .ok ⟨left, last, [], by simp⟩
  | token :: rest =>
    match infixOf? tier token.lexeme with
    | none => .ok ⟨left, last, token :: rest, by simp⟩
    | some infixed => do
      let right ← parseTiers tier rest
      let joined := infixed.apply ⟨start, right.last⟩ left right.value
      let chain ← parseChain tier start joined right.last right.rest
      return ⟨chain.value, chain.last, chain.rest, by grind⟩
termination_by (tokens.length, 0)
decreasing_by all_goals grind

def parsePrimary (tokens : List Token) : Except Rejection (Parsed Expression tokens.length) :=
  match tokens with
  | ⟨.number value, position⟩ :: rest =>
    .ok ⟨.literal (.point position) (.number value), position, rest, by simp⟩
  | ⟨.string text, position⟩ :: rest =>
    .ok ⟨.literal (.point position) (.string text), position, rest, by simp⟩
  | ⟨.boolean value, position⟩ :: rest =>
    .ok ⟨.literal (.point position) (.boolean value), position, rest, by simp⟩
  | ⟨.identifier name, position⟩ :: ⟨.symbol .leftParen, _⟩ :: rest => do
    let arguments ← parseArguments rest
    return ⟨.call ⟨position, arguments.last⟩ name arguments.value, arguments.last, arguments.rest,
      by grind⟩
  | ⟨.identifier name, position⟩ :: rest =>
    .ok ⟨.identifier (.point position) name, position, rest, by simp⟩
  | ⟨.symbol .leftParen, _⟩ :: rest => do
    let inner ← parseTiers tierCount rest
    let close ← expectSymbol .rightParen inner.rest
    return ⟨inner.value, close.last, close.rest, by grind⟩
  | _ => .error ⟨.value, tokens⟩
termination_by (tokens.length, 0)
decreasing_by all_goals grind

/-- The arguments of a call after its opening parenthesis, up to the closing one. -/
def parseArguments (tokens : List Token) :
    Except Rejection (Parsed (List Expression) tokens.length) :=
  match tokens with
  | ⟨.symbol .rightParen, position⟩ :: rest => .ok ⟨[], position, rest, by simp⟩
  | tokens => do
    let first ← parseTiers tierCount tokens
    let others ← parseMoreArguments first.rest
    return ⟨first.value :: others.value, others.last, others.rest, by grind⟩
termination_by (tokens.length, tierCount + 2)
decreasing_by all_goals grind

def parseMoreArguments (tokens : List Token) :
    Except Rejection (Parsed (List Expression) tokens.length) :=
  match tokens with
  | ⟨.symbol .comma, _⟩ :: rest => do
    let next ← parseTiers tierCount rest
    let others ← parseMoreArguments next.rest
    return ⟨next.value :: others.value, others.last, others.rest, by grind⟩
  | tokens => do
    let close ← expectSymbol .rightParen tokens
    return ⟨[], close.last, close.rest, by grind⟩
termination_by (tokens.length, 0)
decreasing_by all_goals grind

end

def parseExpression (tokens : List Token) : Except Rejection (Parsed Expression tokens.length) :=
  parseTiers tierCount tokens

/-- Further parameters, each after a comma, up to the closing parenthesis. -/
def parseMoreParameters (tokens : List Token) :
    Except Rejection (Parsed (List String) tokens.length) :=
  match tokens with
  | ⟨.symbol .comma, _⟩ :: rest => do
    let next ← expectIdentifier rest
    let others ← parseMoreParameters next.rest
    return ⟨next.value :: others.value, others.last, others.rest, by grind⟩
  | tokens => do
    let close ← expectSymbol .rightParen tokens
    return ⟨[], close.last, close.rest, by grind⟩
termination_by tokens.length
decreasing_by grind

/-- The parameters of a function after its opening parenthesis, up to the closing one. -/
def parseParameters (tokens : List Token) :
    Except Rejection (Parsed (List String) tokens.length) :=
  match tokens with
  | ⟨.symbol .rightParen, position⟩ :: rest => .ok ⟨[], position, rest, by simp⟩
  | tokens => do
    let first ← expectIdentifier tokens
    let others ← parseMoreParameters first.rest
    return ⟨first.value :: others.value, others.last, others.rest, by grind⟩

/-- A condition in parentheses. -/
def parseCondition (tokens : List Token) : Except Rejection (Parsed Expression tokens.length) := do
  let opening ← expectSymbol .leftParen tokens
  let test ← parseExpression opening.rest
  let close ← expectSymbol .rightParen test.rest
  return ⟨test.value, close.last, close.rest, by grind⟩

mutual

def parseStatement (tokens : List Token) : Except Rejection (Parsed Statement tokens.length) :=
  match tokens with
  | ⟨.keyword .letWord, start⟩ :: rest => do
    let name ← expectIdentifier rest
    let sign ← expectSymbol .assign name.rest
    let value ← parseExpression sign.rest
    let close ← expectSymbol .semicolon value.rest
    return ⟨.declare ⟨start, close.last⟩ name.value value.value, close.last, close.rest, by grind⟩
  | ⟨.keyword .ifWord, start⟩ :: rest => do
    let test ← parseCondition rest
    let consequent ← parseStatement test.rest
    match following : consequent.rest with
    | ⟨.keyword .elseWord, _⟩ :: others => do
      let alternate ← parseStatement others
      return ⟨.branch ⟨start, alternate.last⟩ test.value consequent.value (some alternate.value),
        alternate.last, alternate.rest, by grind⟩
    | _ =>
      return ⟨.branch ⟨start, consequent.last⟩ test.value consequent.value none, consequent.last,
        consequent.rest, by grind⟩
  | ⟨.keyword .whileWord, start⟩ :: rest => do
    let test ← parseCondition rest
    let body ← parseStatement test.rest
    return ⟨.loop ⟨start, body.last⟩ test.value body.value, body.last, body.rest, by grind⟩
  | ⟨.keyword .functionWord, start⟩ :: rest => do
    let name ← expectIdentifier rest
    let opening ← expectSymbol .leftParen name.rest
    let parameters ← parseParameters opening.rest
    let body ← parseStatement parameters.rest
    return ⟨.function ⟨start, body.last⟩ name.value parameters.value body.value, body.last,
      body.rest, by grind⟩
  | ⟨.keyword .returnWord, start⟩ :: rest => do
    let argument ← parseExpression rest
    let close ← expectSymbol .semicolon argument.rest
    return ⟨.giveBack ⟨start, close.last⟩ argument.value, close.last, close.rest, by grind⟩
  | ⟨.keyword .printWord, start⟩ :: rest => do
    let argument ← parseCondition rest
    let close ← expectSymbol .semicolon argument.rest
    return ⟨.print ⟨start, close.last⟩ argument.value, close.last, close.rest, by grind⟩
  | ⟨.keyword .importWord, start⟩ :: rest => do
    let opening ← expectSymbol .leftParen rest
    let path ← expectString opening.rest
    let closing ← expectSymbol .rightParen path.rest
    let close ← expectSymbol .semicolon closing.rest
    return ⟨.importFile ⟨start, close.last⟩ path.value, close.last, close.rest, by grind⟩
  | ⟨.identifier name, start⟩ :: ⟨.symbol .assign, _⟩ :: rest => do
    let value ← parseExpression rest
    let close ← expectSymbol .semicolon value.rest
    return ⟨.assign ⟨start, close.last⟩ name value.value, close.last, close.rest, by grind⟩
  | ⟨.identifier name, start⟩ :: ⟨.symbol .leftParen, _⟩ :: rest => do
    let arguments ← parseArguments rest
    let close ← expectSymbol .semicolon arguments.rest
    return ⟨.call ⟨start, arguments.last⟩ name arguments.value, close.last, close.rest, by grind⟩
  | ⟨.identifier _, _⟩ :: rest => .error ⟨.assignmentOrCall, rest⟩
  | ⟨.symbol .leftBrace, start⟩ :: rest => do
    let body ← parseBlock rest
    return ⟨.block ⟨start, body.last⟩ body.value, body.last, body.rest, by grind⟩
  | tokens => .error ⟨.statement, tokens⟩
termination_by (tokens.length, 0)
decreasing_by all_goals grind

/-- The statements of a block after its opening brace, up to the closing one. -/
def parseBlock (tokens : List Token) : Except Rejection (Parsed (List Statement) tokens.length) :=
  match tokens with
  | [] => .error ⟨.kind (.symbol .rightBrace), []⟩
  | ⟨.symbol .rightBrace, position⟩ :: rest => .ok ⟨[], position, rest, by simp⟩
  | tokens => do
    let first ← parseStatement tokens
    let others ← parseBlock first.rest
    return ⟨first.value :: others.value, others.last, others.rest, by grind⟩
termination_by (tokens.length, 1)
decreasing_by all_goals grind

end

/-- The statements up to the end of the tokens, and where the last token stands. -/
def parseStatements (last : Position) (tokens : List Token) :
    Except Rejection (List Statement × Position) :=
  match tokens with
  | [] => .ok ([], last)
  | tokens => do
    let first ← parseStatement tokens
    let others ← parseStatements first.last first.rest
    return (first.value :: others.1, others.2)
termination_by tokens.length
decreasing_by grind

/-- A program without statements stands at the end of its text. -/
def parseProgram (stream : TokenStream) : Except Rejection Program := do
  let start := (stream.tokens.head?.map Token.position).getD stream.stop
  let statements ← parseStatements start stream.tokens
  return ⟨⟨start, statements.2⟩, statements.1⟩

namespace Expected

def description : Expected → String
  | .kind wanted => wanted.description
  | .value => "a value or expression"
  | .assignmentOrCall =>
    (TokenKind.symbol .assign).description ++ " or " ++ (TokenKind.symbol .leftParen).description
  | .statement => "a statement"

end Expected

namespace Rejection

def actual (rejection : Rejection) : TokenKind :=
  match rejection.rest with
  | [] => .endOfFile
  | token :: _ => token.lexeme.kind

def cause (rejection : Rejection) : Cause :=
  match rejection.expected with
  | .statement => .unexpectedStatement rejection.actual.description
  | expected => .unexpectedToken expected.description rejection.actual.description

/-- The error at the offending token, or at the end of the text. -/
def toError (rejection : Rejection) (stop : Position) (file : Option String) : Error where
  phase := .parsing
  cause := rejection.cause
  span := some (.point ((rejection.rest.head?.map Token.position).getD stop))
  file := file

end Rejection

/-- Why a source text is no program. -/
inductive SourceFault where
  | reported (error : Error)
  | oversizedInteger (digits : Nat)
deriving DecidableEq

namespace Program

def ofStream (stream : TokenStream) (file : Option String) : Except SourceFault Program :=
  match parseProgram stream with
  | .ok program => .ok program
  | .error rejection => .error (.reported (rejection.toError stream.stop file))

end Program

def LexFault.toSourceFault (fault : LexFault) (file : Option String) : SourceFault :=
  match fault with
  | .unexpected position char => .reported { lexError position char with file := file }
  | .oversizedInteger digits => .oversizedInteger digits

namespace Program

def ofSource (source : String) (file : Option String) : Except SourceFault Program :=
  match TokenStream.ofSource source with
  | .ok stream => ofStream stream file
  | .error fault => .error (fault.toSourceFault file)

end Program
end ScriptKit
