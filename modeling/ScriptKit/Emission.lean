import ScriptKit.Error
import ScriptKit.Json
import ScriptKit.Program

/-!
Programs as JavaScript. Emission leaves an open site for each import; whoever builds the files fills
the sites in order. Operators are always in parentheses, so precedence plays no part.
-/
namespace ScriptKit

/-- A piece of emitted text, or the place of an import. -/
inductive Fragment where
  | text (code : String)
  | site (span : Span) (path : String)
deriving DecidableEq

def Literal.emit : Literal → String
  | .boolean value => if value then "true" else "false"
  | .number (.integer value) => toString value
  | .number (.double value) => Json.doubleText value
  | .string value => Text.jsonQuoted false value

def commaSeparated : List String → String := String.intercalate ", "

mutual

def Expression.emit : Expression → String
  | .literal _ value => value.emit
  | .identifier _ name => name
  | .binary _ operator left right =>
    "(" ++ left.emit ++ " " ++ operator.text ++ " " ++ right.emit ++ ")"
  | .logical _ operator left right =>
    "(" ++ left.emit ++ " " ++ operator.text ++ " " ++ right.emit ++ ")"
  | .call _ callee arguments =>
    callee ++ "(" ++ commaSeparated (Expression.emitAll arguments) ++ ")"

def Expression.emitAll : List Expression → List String
  | [] => []
  | expression :: rest => expression.emit :: Expression.emitAll rest

end

/-- Fragments between braces on lines of their own. -/
def braced (inner : List Fragment) : List Fragment :=
  .text "\x7b\n" :: (inner ++ [.text "\n\x7d"])

mutual

/-- A call that is a statement ends with a semicolon; a function's body is always a block. -/
def Statement.emit : Statement → List Fragment
  | .declare _ name value => [.text ("let " ++ name ++ " = " ++ value.emit ++ ";")]
  | .assign _ name value => [.text (name ++ " = " ++ value.emit ++ ";")]
  | .block _ body => braced (Statement.emitAll body)
  | .branch _ test consequent none =>
    .text ("if (" ++ test.emit ++ ") ") :: consequent.emit
  | .branch _ test consequent (some alternate) =>
    .text ("if (" ++ test.emit ++ ") ") :: (consequent.emit ++ .text " else " :: alternate.emit)
  | .loop _ test body => .text ("while (" ++ test.emit ++ ") ") :: body.emit
  | .function _ name parameters body =>
    .text ("function " ++ name ++ "(" ++ commaSeparated parameters ++ ") ") ::
      (if body.isBlock then body.emit else braced body.emit)
  | .giveBack _ argument => [.text ("return " ++ argument.emit ++ ";")]
  | .print _ argument => [.text ("console.log(" ++ argument.emit ++ ");")]
  | .importFile span path => [.site span path]
  | .call span callee arguments => [.text ((Expression.call span callee arguments).emit ++ ";")]

/-- Statements one after the other, each on a line of its own. -/
def Statement.emitAll : List Statement → List Fragment
  | [] => []
  | [statement] => statement.emit
  | statement :: next :: rest => statement.emit ++ .text "\n" :: Statement.emitAll (next :: rest)

end

def Program.emit (program : Program) : List Fragment := Statement.emitAll program.body

/-- Why a tree has no emitted text of its own. -/
inductive EmitFault where
  | reported (error : Error)
  | unhandledNode
deriving DecidableEq

/-- The text of fragments when no files are built: the first import is an error. -/
def standaloneText (file : Option String) : List Fragment → Except Error String
  | [] => .ok ""
  | .text code :: rest => do
    let following ← standaloneText file rest
    return code ++ following
  | .site span path :: _ =>
    .error ⟨.importing, .importRequiresBuild path, some span, file⟩

def Program.emitStandalone (program : Program) (file : Option String) : Except Error String :=
  standaloneText file program.emit

/-- The fragments of any node but a bare span. A call by itself has no semicolon. -/
def Node.emit? : Node → Option (List Fragment)
  | .expression value => some [.text value.emit]
  | .statement (.call place callee arguments) =>
    some [.text (Expression.call place callee arguments).emit]
  | .statement value => some value.emit
  | .program value => some value.emit
  | .span _ => none

def Node.emitStandalone (node : Node) : Except EmitFault String :=
  match node.emit? with
  | none => .error .unhandledNode
  | some fragments =>
    match standaloneText none fragments with
    | .ok code => .ok code
    | .error error => .error (.reported error)

namespace EmitFault

def message : EmitFault → String
  | .reported error => error.message
  | .unhandledNode => "The code emitter has no rule for node type 'Span'."

end EmitFault
end ScriptKit
