import ScriptKit.Json
import ScriptKit.Program
import ScriptKit.Token

/-!
Programs and tokens as JSON documents. Each object starts with the name of its type; the other fields
follow in a fixed order.
-/
namespace ScriptKit

/-- An object whose first field names its type. -/
def Json.tagged (type : String) (fields : List (String × Json)) : Json :=
  .object (("type", .string type) :: fields)

def Json.natural (value : Nat) : Json := .integer value

def Number.toJson : Number → Json
  | .integer value => .integer value
  | .double value => .double value

def Span.toJson (span : Span) : Json :=
  .tagged "Span" [("s_line", .natural span.first.line), ("s_col", .natural span.first.column),
    ("e_line", .natural span.last.line), ("e_col", .natural span.last.column)]

def Literal.toJson : Literal → Json
  | .boolean value => .boolean value
  | .number value => value.toJson
  | .string value => .string value

mutual

def Expression.toJson : Expression → Json
  | .literal span value => .tagged "Literal" [("span", span.toJson), ("value", value.toJson)]
  | .identifier span name => .tagged "Identifier" [("span", span.toJson), ("name", .string name)]
  | .binary span operator left right =>
    .tagged "BinaryExpression" [("span", span.toJson), ("operator", .string operator.text),
      ("left", left.toJson), ("right", right.toJson)]
  | .logical span operator left right =>
    .tagged "LogicalExpression" [("span", span.toJson), ("operator", .string operator.text),
      ("left", left.toJson), ("right", right.toJson)]
  | .call span callee arguments =>
    .tagged "CallExpression" [("span", span.toJson), ("callee", .string callee),
      ("arguments", .array (Expression.toJsonAll arguments))]

def Expression.toJsonAll : List Expression → List Json
  | [] => []
  | expression :: rest => expression.toJson :: Expression.toJsonAll rest

end

mutual

def Statement.toJson : Statement → Json
  | .declare span name value =>
    .tagged "VariableDeclaration" [("span", span.toJson), ("name", .string name),
      ("value", value.toJson)]
  | .assign span name value =>
    .tagged "AssignmentExpression" [("span", span.toJson), ("name", .string name),
      ("value", value.toJson)]
  | .block span body =>
    .tagged "BlockStatement" [("span", span.toJson), ("body", .array (Statement.toJsonAll body))]
  | .branch span test consequent none =>
    .tagged "IfStatement" [("span", span.toJson), ("test", test.toJson),
      ("consequent", consequent.toJson), ("alternate", .null)]
  | .branch span test consequent (some alternate) =>
    .tagged "IfStatement" [("span", span.toJson), ("test", test.toJson),
      ("consequent", consequent.toJson), ("alternate", alternate.toJson)]
  | .loop span test body =>
    .tagged "WhileStatement" [("span", span.toJson), ("test", test.toJson), ("body", body.toJson)]
  | .function span name parameters body =>
    .tagged "FunctionDeclaration" [("span", span.toJson), ("name", .string name),
      ("params", .array (parameters.map .string)), ("body", body.toJson)]
  | .giveBack span argument =>
    .tagged "ReturnStatement" [("span", span.toJson), ("argument", argument.toJson)]
  | .print span argument =>
    .tagged "PrintStatement" [("span", span.toJson), ("argument", argument.toJson)]
  | .importFile span path =>
    .tagged "ImportStatement" [("span", span.toJson), ("path", .string path)]
  | .call span callee arguments => (Expression.call span callee arguments).toJson

def Statement.toJsonAll : List Statement → List Json
  | [] => []
  | statement :: rest => statement.toJson :: Statement.toJsonAll rest

end

def Program.toJson (program : Program) : Json :=
  .tagged "Program" [("span", program.span.toJson), ("body", .array (Statement.toJsonAll program.body))]

def Program.dump (program : Program) : String := program.toJson.indented 0

/-- The value a token carries: what a literal means, and the text of everything else. -/
def Lexeme.toJson : Lexeme → Json
  | .number value => value.toJson
  | .string value => .string value
  | .boolean value => .boolean value
  | .identifier name => .string name
  | .keyword word => .string word.text
  | .symbol sign => .string sign.text

def tokenJson (kind : TokenKind) (value : Json) (position : Position) : Json :=
  .tagged "Token" [("kind", .string kind.name), ("value", value),
    ("line", .natural position.line), ("column", .natural position.column)]

def Token.toJson (token : Token) : Json :=
  tokenJson token.lexeme.kind token.lexeme.toJson token.position

/-- The end of the text is the last entry. -/
def TokenStream.toJson (stream : TokenStream) : Json :=
  .array (stream.tokens.map Token.toJson ++ [tokenJson .endOfFile .null stream.stop])

def TokenStream.dump (stream : TokenStream) : String := stream.toJson.indented 0

end ScriptKit
