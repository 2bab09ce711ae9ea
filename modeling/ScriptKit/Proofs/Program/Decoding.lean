import ScriptKit.Program.Dump
import ScriptKit.Proofs.Json.Ascii
import ScriptKit.Proofs.Program.Parts

/-!
Dumps can be decoded. An object is rebuilt by its type, a field by its name; what was read from a
source comes back as it was, with its spans, its numbers and its texts.
-/
namespace ScriptKit

namespace Json

def text? : Json → Option String
  | .string value => some value
  | _ => none

def natural? : Json → Option Nat
  | .integer (.ofNat value) => some value
  | _ => none

def textAt? (json : Json) (key : String) : Option String := (json.field? key).bind text?

def naturalAt? (json : Json) (key : String) : Option Nat := (json.field? key).bind natural?

private theorem sizeOf_field?_lt {json part : Json} (found : json.field? key = some part) :
    sizeOf part < sizeOf json := by
  cases json with
  | object fields =>
    obtain ⟨before, after, rfl, _⟩ := List.lookup_eq_some_iff.mp found
    have smaller : sizeOf (key, part) < sizeOf (before ++ (key, part) :: after) :=
      List.sizeOf_lt_of_mem (by simp)
    simp only [Prod.mk.sizeOf_spec, object.sizeOf_spec] at smaller ⊢
    omega
  | _ => cases found

/-- The value of a field, which is smaller than its object. -/
def part? (json : Json) (key : String) : Option { part : Json // sizeOf part < sizeOf json } :=
  (json.field? key).pmap (fun part smaller => ⟨part, smaller⟩) fun _ => sizeOf_field?_lt

/-- The items of a field, all of them smaller than the object. -/
def items? (json : Json) (key : String) : Option { items : List Json // sizeOf items < sizeOf json } :=
  match json.part? key with
  | some ⟨.array items, smaller⟩ => some ⟨items, Nat.lt_trans (by simp) smaller⟩
  | _ => none

end Json

def Span.ofJson? (json : Json) : Option Span :=
  match json.textAt? "type" with
  | some "Span" => do
    let startLine ← json.naturalAt? "s_line"
    let startColumn ← json.naturalAt? "s_col"
    let endLine ← json.naturalAt? "e_line"
    let endColumn ← json.naturalAt? "e_col"
    return ⟨⟨startLine, startColumn⟩, ⟨endLine, endColumn⟩⟩
  | _ => none

def Literal.ofJson? : Json → Option Literal
  | .boolean value => some (.boolean value)
  | .integer value => some (.number (.integer value))
  | .double value => some (.number (.double value))
  | .string value => some (.string value)
  | _ => none

mutual

def Expression.ofJson? (json : Json) : Option Expression := do
  let span ← (json.field? "span").bind Span.ofJson?
  match json.textAt? "type" with
  | some "Literal" =>
    let value ← (json.field? "value").bind Literal.ofJson?
    return .literal span value
  | some "Identifier" =>
    let name ← json.textAt? "name"
    return .identifier span name
  | some "BinaryExpression" =>
    let operator ← json.textAt? "operator"
    let left ← json.part? "left"
    let right ← json.part? "right"
    return .binary span (.ofText operator) (← Expression.ofJson? left.1) (← Expression.ofJson? right.1)
  | some "LogicalExpression" =>
    let operator ← json.textAt? "operator"
    let left ← json.part? "left"
    let right ← json.part? "right"
    return .logical span (.ofText operator) (← Expression.ofJson? left.1) (← Expression.ofJson? right.1)
  | some "CallExpression" =>
    let callee ← json.textAt? "callee"
    let arguments ← json.items? "arguments"
    return .call span callee (← Expression.ofJsonAll? arguments.1)
  | _ => none
termination_by sizeOf json
decreasing_by all_goals grind

def Expression.ofJsonAll? (items : List Json) : Option (List Expression) := do
  match items with
  | [] => return []
  | item :: items => return (← Expression.ofJson? item) :: (← Expression.ofJsonAll? items)
termination_by sizeOf items
decreasing_by all_goals simp only [List.cons.sizeOf_spec]; omega

end

mutual

def Statement.ofJson? (json : Json) : Option Statement := do
  let span ← (json.field? "span").bind Span.ofJson?
  match json.textAt? "type" with
  | some "VariableDeclaration" =>
    let name ← json.textAt? "name"
    let value ← (json.field? "value").bind Expression.ofJson?
    return .declare span name value
  | some "AssignmentExpression" =>
    let name ← json.textAt? "name"
    let value ← (json.field? "value").bind Expression.ofJson?
    return .assign span name value
  | some "BlockStatement" =>
    let body ← json.items? "body"
    return .block span (← Statement.ofJsonAll? body.1)
  | some "IfStatement" =>
    let test ← (json.field? "test").bind Expression.ofJson?
    let consequent ← json.part? "consequent"
    let alternate ← json.part? "alternate"
    match alternate.1 with
    | .null => return .branch span test (← Statement.ofJson? consequent.1) none
    | _ =>
      return .branch span test (← Statement.ofJson? consequent.1)
        (some (← Statement.ofJson? alternate.1))
  | some "WhileStatement" =>
    let test ← (json.field? "test").bind Expression.ofJson?
    let body ← json.part? "body"
    return .loop span test (← Statement.ofJson? body.1)
  | some "FunctionDeclaration" =>
    let name ← json.textAt? "name"
    let parameters ← json.items? "params"
    let body ← json.part? "body"
    return .function span name (← parameters.1.mapM Json.text?) (← Statement.ofJson? body.1)
  | some "ReturnStatement" =>
    let argument ← (json.field? "argument").bind Expression.ofJson?
    return .giveBack span argument
  | some "PrintStatement" =>
    let argument ← (json.field? "argument").bind Expression.ofJson?
    return .print span argument
  | some "ImportStatement" =>
    let path ← json.textAt? "path"
    return .importFile span path
  | some "CallExpression" =>
    let callee ← json.textAt? "callee"
    let arguments ← json.items? "arguments"
    return .call span callee (← Expression.ofJsonAll? arguments.1)
  | _ => none
termination_by sizeOf json
decreasing_by all_goals grind

def Statement.ofJsonAll? (items : List Json) : Option (List Statement) := do
  match items with
  | [] => return []
  | item :: items => return (← Statement.ofJson? item) :: (← Statement.ofJsonAll? items)
termination_by sizeOf items
decreasing_by all_goals simp only [List.cons.sizeOf_spec]; omega

end

def Program.ofJson? (json : Json) : Option Program := do
  let span ← (json.field? "span").bind Span.ofJson?
  match json.textAt? "type" with
  | some "Program" =>
    let body ← json.items? "body"
    return ⟨span, ← Statement.ofJsonAll? body.1⟩
  | _ => none

/-- The lexeme of a kind that carries a value. -/
def Lexeme.ofJson? : TokenKind → Json → Option Lexeme
  | .number, .integer value => some (.number (.integer value))
  | .number, .double value => some (.number (.double value))
  | .string, .string value => some (.string value)
  | .boolean _, .boolean value => some (.boolean value)
  | .identifier, .string name => some (.identifier name)
  | .keyword word, .string _ => some (.keyword word)
  | .symbol sign, .string _ => some (.symbol sign)
  | _, _ => none

/-- The kind, the value and the place of a token. -/
def Json.tokenParts? (json : Json) : Option (TokenKind × Json × Position) :=
  match json.textAt? "type" with
  | some "Token" => do
    let kind ← (json.textAt? "kind").bind TokenKind.ofName?
    let value ← json.field? "value"
    let line ← json.naturalAt? "line"
    let column ← json.naturalAt? "column"
    return (kind, value, ⟨line, column⟩)
  | _ => none

/-- Tokens, and the place of the end after them. -/
def TokenStream.ofJsonAll? : List Json → Option TokenStream
  | [] => none
  | item :: items => do
    match ← item.tokenParts? with
    | (.endOfFile, .null, stop) => if items.isEmpty then return ⟨[], stop⟩ else none
    | (kind, value, position) =>
      let lexeme ← Lexeme.ofJson? kind value
      let stream ← TokenStream.ofJsonAll? items
      return ⟨⟨lexeme, position⟩ :: stream.tokens, stream.stop⟩

def TokenStream.ofJson? : Json → Option TokenStream
  | .array items => TokenStream.ofJsonAll? items
  | _ => none

theorem Literal.ofJson?_toJson (value : Literal) : ofJson? value.toJson = some value := by
  cases value with
  | number value => cases value <;> rfl
  | _ => rfl

theorem BinaryOperator.ofText_text {operator : BinaryOperator}
    (used : (Infix.binary operator).Uses holds) : ofText operator.text = operator := by
  obtain ⟨sign, signed, _⟩ := used
  cases operator with
  | unknown text => cases signed
  | _ => decide

theorem LogicalOperator.ofText_text {operator : LogicalOperator}
    (used : (Infix.logical operator).Uses holds) : ofText operator.text = operator := by
  obtain ⟨sign, signed, _⟩ := used
  cases operator with
  | unknown text => cases signed
  | _ => decide

mutual

theorem Expression.ofJson?_toJson : (expression : Expression) → expression.bare.Uses holds →
    Expression.ofJson? expression.toJson = some expression
  | .literal span value => by
    intro _
    rw [Expression.ofJson?]
    change ((Literal.ofJson? value.toJson).bind fun value => some (Expression.literal span value)) = _
    rw [value.ofJson?_toJson]
    rfl
  | .identifier span name => by
    intro _
    rw [Expression.ofJson?]
    rfl
  | .binary span operator left right => by
    intro used
    have first := left.ofJson?_toJson used.2.1
    have second := right.ofJson?_toJson used.2.2
    rw [Expression.ofJson?]
    change ((Expression.ofJson? left.toJson).bind fun left =>
      (Expression.ofJson? right.toJson).bind fun right =>
        some (Expression.binary span (.ofText operator.text) left right)) = _
    rw [first, second, BinaryOperator.ofText_text used.1]
    rfl
  | .logical span operator left right => by
    intro used
    have first := left.ofJson?_toJson used.2.1
    have second := right.ofJson?_toJson used.2.2
    rw [Expression.ofJson?]
    change ((Expression.ofJson? left.toJson).bind fun left =>
      (Expression.ofJson? right.toJson).bind fun right =>
        some (Expression.logical span (.ofText operator.text) left right)) = _
    rw [first, second, LogicalOperator.ofText_text used.1]
    rfl
  | .call span callee arguments => by
    intro used
    have inner := Expression.ofJsonAll?_toJsonAll arguments used.2
    rw [Expression.ofJson?]
    change ((Expression.ofJsonAll? (Expression.toJsonAll arguments)).bind fun arguments =>
      some (Expression.call span callee arguments)) = _
    rw [inner]
    rfl

theorem Expression.ofJsonAll?_toJsonAll : (expressions : List Expression) →
    Bare.Expression.AllUse holds (Expression.bareAll expressions) →
    Expression.ofJsonAll? (Expression.toJsonAll expressions) = some expressions
  | [] => by
    intro _
    rw [Expression.toJsonAll, Expression.ofJsonAll?]
    rfl
  | expression :: rest => by
    intro used
    have first := expression.ofJson?_toJson used.1
    have others := Expression.ofJsonAll?_toJsonAll rest used.2
    rw [Expression.toJsonAll, Expression.ofJsonAll?, first, others]
    rfl

end

theorem Statement.toJson_object (statement : Statement) :
    ∃ fields, statement.toJson = .object fields := by
  cases statement with
  | branch span test consequent alternate => cases alternate <;> exact ⟨_, rfl⟩
  | _ => exact ⟨_, rfl⟩

private theorem mapM_text?_string (texts : List String) :
    (texts.map Json.string).mapM Json.text? = some texts := by
  induction texts with
  | nil => rfl
  | cons text texts ih =>
    rw [List.map_cons, List.mapM_cons, ih]
    rfl

mutual

theorem Statement.ofJson?_toJson : (statement : Statement) → statement.bare.Uses holds →
    Statement.ofJson? statement.toJson = some statement
  | .declare span name value => by
    intro used
    rw [Statement.ofJson?]
    change ((Expression.ofJson? value.toJson).bind fun value =>
      some (Statement.declare span name value)) = _
    rw [value.ofJson?_toJson used.2.2]
    rfl
  | .assign span name value => by
    intro used
    rw [Statement.ofJson?]
    change ((Expression.ofJson? value.toJson).bind fun value =>
      some (Statement.assign span name value)) = _
    rw [value.ofJson?_toJson used.2]
    rfl
  | .block span body => by
    intro used
    have inner := Statement.ofJsonAll?_toJsonAll body used
    rw [Statement.ofJson?]
    change ((Statement.ofJsonAll? (Statement.toJsonAll body)).bind fun body =>
      some (Statement.block span body)) = _
    rw [inner]
    rfl
  | .branch span test consequent none => by
    intro used
    have first := consequent.ofJson?_toJson used.2.2
    rw [Statement.ofJson?]
    change ((Expression.ofJson? test.toJson).bind fun test =>
      (Statement.ofJson? consequent.toJson).bind fun consequent =>
        some (Statement.branch span test consequent none)) = _
    rw [test.ofJson?_toJson used.2.1, first]
    rfl
  | .branch span test consequent (some alternate) => by
    intro used
    -- That the alternate is not null shows only once it is an object.
    obtain ⟨fields, object⟩ := alternate.toJson_object
    have first := consequent.ofJson?_toJson used.2.2.1
    have second := alternate.ofJson?_toJson used.2.2.2.2
    rw [object] at second
    rw [Statement.toJson, object, Statement.ofJson?]
    change ((Expression.ofJson? test.toJson).bind fun test =>
      (Statement.ofJson? consequent.toJson).bind fun consequent =>
        (Statement.ofJson? (.object fields)).bind fun alternate =>
          some (Statement.branch span test consequent (some alternate))) = _
    rw [test.ofJson?_toJson used.2.1, first, second]
    rfl
  | .loop span test body => by
    intro used
    have inner := body.ofJson?_toJson used.2.2
    rw [Statement.ofJson?]
    change ((Expression.ofJson? test.toJson).bind fun test =>
      (Statement.ofJson? body.toJson).bind fun body => some (Statement.loop span test body)) = _
    rw [test.ofJson?_toJson used.2.1, inner]
    rfl
  | .function span name parameters body => by
    intro used
    have inner := body.ofJson?_toJson used.2.2.2
    rw [Statement.ofJson?]
    change (((parameters.map Json.string).mapM Json.text?).bind fun parameters =>
      (Statement.ofJson? body.toJson).bind fun body =>
        some (Statement.function span name parameters body)) = _
    rw [mapM_text?_string, inner]
    rfl
  | .giveBack span argument => by
    intro used
    rw [Statement.ofJson?]
    change ((Expression.ofJson? argument.toJson).bind fun argument =>
      some (Statement.giveBack span argument)) = _
    rw [argument.ofJson?_toJson used.2]
    rfl
  | .print span argument => by
    intro used
    rw [Statement.ofJson?]
    change ((Expression.ofJson? argument.toJson).bind fun argument =>
      some (Statement.print span argument)) = _
    rw [argument.ofJson?_toJson used.2]
    rfl
  | .importFile span path => by
    intro _
    rw [Statement.ofJson?]
    rfl
  | .call span callee arguments => by
    intro used
    rw [Statement.ofJson?]
    change ((Expression.ofJsonAll? (Expression.toJsonAll arguments)).bind fun arguments =>
      some (Statement.call span callee arguments)) = _
    rw [Expression.ofJsonAll?_toJsonAll arguments used.2]
    rfl

theorem Statement.ofJsonAll?_toJsonAll : (statements : List Statement) →
    Bare.Statement.AllUse holds (Statement.bareAll statements) →
    Statement.ofJsonAll? (Statement.toJsonAll statements) = some statements
  | [] => by
    intro _
    rw [Statement.toJsonAll, Statement.ofJsonAll?]
    rfl
  | statement :: rest => by
    intro used
    have first := statement.ofJson?_toJson used.1
    have others := Statement.ofJsonAll?_toJsonAll rest used.2
    rw [Statement.toJsonAll, Statement.ofJsonAll?, first, others]
    rfl

end

theorem Program.ofJson?_toJson {program : Program}
    (used : Bare.Statement.AllUse holds program.bare) :
    Program.ofJson? program.toJson = some program := by
  change ((Statement.ofJsonAll? (Statement.toJsonAll program.body)).bind fun body =>
    some (Program.mk program.span body)) = _
  rw [Statement.ofJsonAll?_toJsonAll program.body used]
  rfl

theorem TokenKind.ofName?_name (kind : TokenKind) : ofName? kind.name = some kind := by
  cases kind with
  | boolean value => cases value <;> decide
  | keyword word => cases word <;> decide
  | symbol sign => cases sign <;> decide
  | _ => decide

theorem Json.tokenParts?_tokenJson (kind : TokenKind) (value : Json) (position : Position) :
    (tokenJson kind value position).tokenParts? = some (kind, value, position) := by
  change ((TokenKind.ofName? kind.name).bind fun kind => some (kind, value, position)) = _
  rw [kind.ofName?_name]
  rfl

theorem TokenStream.ofJsonAll?_toJson (tokens : List Token) (stop : Position) :
    ofJsonAll? (tokens.map Token.toJson ++ [tokenJson .endOfFile .null stop]) =
      some ⟨tokens, stop⟩ := by
  induction tokens with
  | nil =>
    rw [List.map_nil, List.nil_append, ofJsonAll?, Json.tokenParts?_tokenJson]
    rfl
  | cons token tokens ih =>
    rw [List.map_cons, List.cons_append, ofJsonAll?, Token.toJson, Json.tokenParts?_tokenJson,
      ih]
    obtain ⟨lexeme, position⟩ := token
    cases lexeme with
    | number value => cases value <;> rfl
    | _ => rfl

theorem TokenStream.ofJson?_toJson (stream : TokenStream) :
    ofJson? stream.toJson = some stream :=
  ofJsonAll?_toJson stream.tokens stream.stop

end ScriptKit
