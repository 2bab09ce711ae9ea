import ScriptKit.Number
import ScriptKit.Position

/-!
Programs of the script language. Every construct knows where it stands in its source. Operators are
those of the language or any other text a tree was made with.
-/
namespace ScriptKit

inductive BinaryOperator where
  | equal
  | notEqual
  | greater
  | greaterEqual
  | less
  | lessEqual
  | plus
  | minus
  | times
  | divide
  | modulo
  | unknown (text : String)
deriving DecidableEq

namespace BinaryOperator

def text : BinaryOperator → String
  | .equal => "=="
  | .notEqual => "!="
  | .greater => ">"
  | .greaterEqual => ">="
  | .less => "<"
  | .lessEqual => "<="
  | .plus => "+"
  | .minus => "-"
  | .times => "*"
  | .divide => "/"
  | .modulo => "%"
  | .unknown text => text

def known : List BinaryOperator :=
  [.equal, .notEqual, .greater, .greaterEqual, .less, .lessEqual, .plus, .minus, .times, .divide,
    .modulo]

def ofText (text : String) : BinaryOperator :=
  (known.find? fun operator => operator.text == text).getD (.unknown text)

end BinaryOperator

/-- Every operator but `&&` decides like `||`. -/
inductive LogicalOperator where
  | and
  | or
  | unknown (text : String)
deriving DecidableEq

namespace LogicalOperator

def text : LogicalOperator → String
  | .and => "&&"
  | .or => "||"
  | .unknown text => text

def ofText (text : String) : LogicalOperator :=
  if text = "&&" then .and else if text = "||" then .or else .unknown text

end LogicalOperator

inductive Literal where
  | boolean (value : Bool)
  | number (value : Number)
  | string (value : String)
deriving DecidableEq

inductive Expression where
  | literal (span : Span) (value : Literal)
  | identifier (span : Span) (name : String)
  | binary (span : Span) (operator : BinaryOperator) (left right : Expression)
  | logical (span : Span) (operator : LogicalOperator) (left right : Expression)
  | call (span : Span) (callee : String) (arguments : List Expression)
deriving Inhabited

/-- A call is the one expression that is also a statement. -/
inductive Statement where
  | declare (span : Span) (name : String) (value : Expression)
  | assign (span : Span) (name : String) (value : Expression)
  | block (span : Span) (body : List Statement)
  | branch (span : Span) (test : Expression) (consequent : Statement) (alternate : Option Statement)
  | loop (span : Span) (test : Expression) (body : Statement)
  | function (span : Span) (name : String) (parameters : List String) (body : Statement)
  | giveBack (span : Span) (argument : Expression)
  | print (span : Span) (argument : Expression)
  | importFile (span : Span) (path : String)
  | call (span : Span) (callee : String) (arguments : List Expression)
deriving Inhabited

structure Program where
  span : Span
  body : List Statement

/-- Anything that can be handed over for running or emission. A bare span is neither. -/
inductive Node where
  | expression (value : Expression)
  | statement (value : Statement)
  | program (value : Program)
  | span (value : Span)

namespace Statement

def isBlock : Statement → Bool
  | .block .. => true
  | _ => false

end Statement
end ScriptKit
