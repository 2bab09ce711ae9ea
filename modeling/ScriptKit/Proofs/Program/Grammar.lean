import ScriptKit.Program.Parser
import ScriptKit.Proofs.Program.Bare

/-!
The grammar of the script language, as a relation between lexemes and trees. Nothing here says how a
text is read: a binary level is left recursive, a parenthesis may stand around any expression, and
the one restriction on what may follow a phrase is that an `if` without `else` is not followed by
`else`.
-/
namespace ScriptKit

def Infix.join (infixed : Infix) (left right : Bare.Expression) : Bare.Expression :=
  match infixed with
  | .binary operator => .binary operator left right
  | .logical operator => .logical operator left right

namespace Grammar

/-- The operators of each binary level, from the one that binds most tightly: multiplicative,
additive, relational, equality, conjunction, disjunction. -/
def levels : List (List (Symbol × Infix)) :=
  [[(.multiply, .binary .times), (.divide, .binary .divide), (.modulo, .binary .modulo)],
    [(.plus, .binary .plus), (.minus, .binary .minus)],
    [(.greater, .binary .greater), (.greaterEquals, .binary .greaterEqual),
      (.less, .binary .less), (.lessEquals, .binary .lessEqual)],
    [(.equals, .binary .equal), (.notEquals, .binary .notEqual)],
    [(.and, .logical .and)],
    [(.or, .logical .or)]]

mutual

/-- Phrases of the first binary levels, as many as the number says. Each level is left associative:
the right operand is of a tighter one. -/
inductive Level : Nat → List Lexeme → Bare.Expression → Prop where
  | primary (inner : Primary phrase tree) : Level 0 phrase tree
  | operand (inner : Level level phrase tree) : Level (level + 1) phrase tree
  | join (left : Level (level + 1) first tree) (listed : levels[level]? = some operators)
      (member : (sign, infixed) ∈ operators) (right : Level level second other) :
      Level (level + 1) (first ++ .symbol sign :: second) (infixed.join tree other)

inductive Primary : List Lexeme → Bare.Expression → Prop where
  | number : Primary [.number value] (.literal (.number value))
  | string : Primary [.string value] (.literal (.string value))
  | boolean : Primary [.boolean value] (.literal (.boolean value))
  | identifier : Primary [.identifier name] (.identifier name)
  | call (inner : Arguments phrase trees) :
      Primary (.identifier callee :: .symbol .leftParen :: (phrase ++ [.symbol .rightParen]))
        (.call callee trees)
  | parentheses (inner : Level levels.length phrase tree) :
      Primary (.symbol .leftParen :: (phrase ++ [.symbol .rightParen])) tree

/-- Expressions with commas between them, without one at the end. -/
inductive Arguments : List Lexeme → List Bare.Expression → Prop where
  | none : Arguments [] []
  | some (first : Level levels.length phrase tree) (others : MoreArguments phrases trees) :
      Arguments (phrase ++ phrases) (tree :: trees)

inductive MoreArguments : List Lexeme → List Bare.Expression → Prop where
  | none : MoreArguments [] []
  | some (next : Level levels.length phrase tree) (others : MoreArguments phrases trees) :
      MoreArguments (.symbol .comma :: (phrase ++ phrases)) (tree :: trees)

end

abbrev Expression : List Lexeme → Bare.Expression → Prop := Level levels.length

/-- Names with commas between them, without one at the end. -/
def parameters (names : List String) : List Lexeme :=
  (names.map Lexeme.identifier).intersperse (.symbol .comma)

mutual

/-- `Statement next phrase tree`: before the lexeme `next`, if there is one, the phrase is a
statement with this tree. -/
inductive Statement : Option Lexeme → List Lexeme → Bare.Statement → Prop where
  | declare (value : Expression phrase tree) :
      Statement next (.keyword .letWord :: .identifier name :: .symbol .assign ::
        (phrase ++ [.symbol .semicolon])) (.declare name tree)
  | assign (value : Expression phrase tree) :
      Statement next (.identifier name :: .symbol .assign :: (phrase ++ [.symbol .semicolon]))
        (.assign name tree)
  | call (inner : Arguments phrase trees) :
      Statement next (.identifier callee :: .symbol .leftParen ::
        (phrase ++ [.symbol .rightParen, .symbol .semicolon])) (.call callee trees)
  | giveBack (argument : Expression phrase tree) :
      Statement next (.keyword .returnWord :: (phrase ++ [.symbol .semicolon])) (.giveBack tree)
  | print (argument : Expression phrase tree) :
      Statement next (.keyword .printWord :: .symbol .leftParen ::
        (phrase ++ [.symbol .rightParen, .symbol .semicolon])) (.print tree)
  | importFile :
      Statement next [.keyword .importWord, .symbol .leftParen, .string path,
        .symbol .rightParen, .symbol .semicolon] (.importFile path)
  | block (body : Statements (some (.symbol .rightBrace)) phrase trees) :
      Statement next (.symbol .leftBrace :: (phrase ++ [.symbol .rightBrace])) (.block trees)
  | branch (test : Expression condition tree) (consequent : Statement next phrase clause)
      (closed : next ≠ some (.keyword .elseWord)) :
      Statement next (.keyword .ifWord :: .symbol .leftParen ::
        (condition ++ .symbol .rightParen :: phrase)) (.branch tree clause none)
  | alternative (test : Expression condition tree)
      (consequent : Statement (some (.keyword .elseWord)) phrase clause)
      (alternate : Statement next phrase' other) :
      Statement next (.keyword .ifWord :: .symbol .leftParen ::
        (condition ++ .symbol .rightParen :: (phrase ++ .keyword .elseWord :: phrase')))
        (.branch tree clause (some other))
  | loop (test : Expression condition tree) (body : Statement next phrase clause) :
      Statement next (.keyword .whileWord :: .symbol .leftParen ::
        (condition ++ .symbol .rightParen :: phrase)) (.loop tree clause)
  | function (body : Statement next phrase clause) :
      Statement next (.keyword .functionWord :: .identifier name :: .symbol .leftParen ::
        (parameters names ++ .symbol .rightParen :: phrase)) (.function name names clause)

/-- Statements one after the other. What comes next after each is the first lexeme of the following
ones, or what comes next after all. -/
inductive Statements : Option Lexeme → List Lexeme → List Bare.Statement → Prop where
  | nil : Statements next [] []
  | cons (first : Statement (phrases.head?.or next) phrase tree)
      (others : Statements next phrases trees) :
      Statements next (phrase ++ phrases) (tree :: trees)

end

/-- A program is made of statements, and nothing comes after them. -/
def Derives (lexemes : List Lexeme) (trees : List Bare.Statement) : Prop :=
  Statements none lexemes trees

end Grammar
end ScriptKit
