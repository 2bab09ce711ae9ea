import ScriptKit.Program

/-!
Syntax trees without spans, and what is left of a program when its spans are erased.
-/
namespace ScriptKit

namespace Bare

inductive Expression where
  | literal (value : Literal)
  | identifier (name : String)
  | binary (operator : BinaryOperator) (left right : Expression)
  | logical (operator : LogicalOperator) (left right : Expression)
  | call (callee : String) (arguments : List Expression)

inductive Statement where
  | declare (name : String) (value : Expression)
  | assign (name : String) (value : Expression)
  | block (body : List Statement)
  | branch (test : Expression) (consequent : Statement) (alternate : Option Statement)
  | loop (test : Expression) (body : Statement)
  | function (name : String) (parameters : List String) (body : Statement)
  | giveBack (argument : Expression)
  | print (argument : Expression)
  | importFile (path : String)
  | call (callee : String) (arguments : List Expression)

end Bare

mutual

def Expression.bare : Expression → Bare.Expression
  | .literal _ value => .literal value
  | .identifier _ name => .identifier name
  | .binary _ operator left right => .binary operator left.bare right.bare
  | .logical _ operator left right => .logical operator left.bare right.bare
  | .call _ callee arguments => .call callee (Expression.bareAll arguments)

def Expression.bareAll : List Expression → List Bare.Expression
  | [] => []
  | expression :: rest => expression.bare :: Expression.bareAll rest

end

mutual

def Statement.bare : Statement → Bare.Statement
  | .declare _ name value => .declare name value.bare
  | .assign _ name value => .assign name value.bare
  | .block _ body => .block (Statement.bareAll body)
  | .branch _ test consequent none => .branch test.bare consequent.bare none
  | .branch _ test consequent (some alternate) =>
    .branch test.bare consequent.bare (some alternate.bare)
  | .loop _ test body => .loop test.bare body.bare
  | .function _ name parameters body => .function name parameters body.bare
  | .giveBack _ argument => .giveBack argument.bare
  | .print _ argument => .print argument.bare
  | .importFile _ path => .importFile path
  | .call _ callee arguments => .call callee (Expression.bareAll arguments)

def Statement.bareAll : List Statement → List Bare.Statement
  | [] => []
  | statement :: rest => statement.bare :: Statement.bareAll rest

end

def Program.bare (program : Program) : List Bare.Statement := Statement.bareAll program.body

section

variable {expression left right : Expression} {statement : Statement}

theorem Expression.bare_eq_literal (same : expression.bare = .literal value) :
    ∃ span, expression = .literal span value := by
  cases expression with
  | literal span value => exact ⟨span, by cases same; rfl⟩
  | _ => cases same

theorem Expression.bare_eq_binary (same : expression.bare = .binary operator first second) :
    ∃ span left right, expression = .binary span operator left right ∧ left.bare = first ∧
      right.bare = second := by
  cases expression with
  | binary span operator left right =>
    cases same
    exact ⟨span, left, right, rfl, rfl, rfl⟩
  | _ => cases same

theorem Statement.bare_eq_assign (same : statement.bare = .assign name tree) :
    ∃ span value, statement = .assign span name value ∧ value.bare = tree := by
  cases statement with
  | assign span name value =>
    cases same
    exact ⟨span, value, rfl, rfl⟩
  | branch span test consequent alternate => cases alternate <;> cases same
  | _ => cases same

theorem Statement.bare_eq_importFile (same : statement.bare = .importFile path) :
    ∃ span, statement = .importFile span path := by
  cases statement with
  | importFile span path => exact ⟨span, by cases same; rfl⟩
  | branch span test consequent alternate => cases alternate <;> cases same
  | _ => cases same

theorem Statement.bare_eq_function (same : statement.bare = .function name parameters tree) :
    ∃ span body, statement = .function span name parameters body ∧ body.bare = tree := by
  cases statement with
  | function span name parameters body =>
    cases same
    exact ⟨span, body, rfl, rfl⟩
  | branch span test consequent alternate => cases alternate <;> cases same
  | _ => cases same

theorem Statement.bareAll_eq_nil {statements : List Statement} (same : bareAll statements = []) :
    statements = [] := by
  cases statements with
  | nil => rfl
  | cons statement rest => cases same

theorem Statement.bareAll_eq_cons {statements : List Statement}
    (same : bareAll statements = tree :: trees) :
    ∃ statement rest, statements = statement :: rest ∧ statement.bare = tree ∧
      bareAll rest = trees := by
  cases statements with
  | nil => cases same
  | cons statement rest =>
    obtain ⟨first, others⟩ := List.cons.inj same
    exact ⟨statement, rest, rfl, first, others⟩

end

end ScriptKit
