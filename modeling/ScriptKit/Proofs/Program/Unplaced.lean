import ScriptKit.Emission
import ScriptKit.Proofs.Program.Alike

/-!
Trees with every span at one place. Erasing the places of a tree changes nothing in its emitted text,
and in the sites of its imports only their places.
-/
namespace ScriptKit

mutual

/-- A tree with default spans. -/
def Bare.Expression.tree : Bare.Expression → ScriptKit.Expression
  | .literal value => .literal default value
  | .identifier name => .identifier default name
  | .binary operator left right => .binary default operator left.tree right.tree
  | .logical operator left right => .logical default operator left.tree right.tree
  | .call callee arguments => .call default callee (Bare.Expression.trees arguments)

def Bare.Expression.trees : List Bare.Expression → List ScriptKit.Expression
  | [] => []
  | expression :: rest => expression.tree :: Bare.Expression.trees rest

end

mutual

def Bare.Statement.tree : Bare.Statement → ScriptKit.Statement
  | .declare name value => .declare default name value.tree
  | .assign name value => .assign default name value.tree
  | .block body => .block default (Bare.Statement.trees body)
  | .branch test consequent none => .branch default test.tree consequent.tree none
  | .branch test consequent (some alternate) =>
    .branch default test.tree consequent.tree (some alternate.tree)
  | .loop test body => .loop default test.tree body.tree
  | .function name parameters body => .function default name parameters body.tree
  | .giveBack argument => .giveBack default argument.tree
  | .print argument => .print default argument.tree
  | .importFile path => .importFile default path
  | .call callee arguments => .call default callee (Bare.Expression.trees arguments)

def Bare.Statement.trees : List Bare.Statement → List ScriptKit.Statement
  | [] => []
  | statement :: rest => statement.tree :: Bare.Statement.trees rest

end

/-- The tree without its places; trees that differ in spans only have the same one. -/
def Expression.unplaced (expression : Expression) : Expression := expression.bare.tree

def Expression.unplacedAll (expressions : List Expression) : List Expression :=
  Bare.Expression.trees (bareAll expressions)

def Statement.unplaced (statement : Statement) : Statement := statement.bare.tree

def Statement.unplacedAll (statements : List Statement) : List Statement :=
  Bare.Statement.trees (bareAll statements)

def Program.unplaced (program : Program) : Program :=
  ⟨default, Bare.Statement.trees program.bare⟩

theorem Program.unplaced_congr {program program' : Program} (same : program.bare = program'.bare) :
    program.unplaced = program'.unplaced := by
  rw [unplaced, same, unplaced]

theorem Statement.isBlock_unplaced (statement : Statement) :
    statement.unplaced.isBlock = statement.isBlock := by
  cases statement with
  | branch place test consequent alternate => cases alternate <;> rfl
  | _ => rfl

def Fragment.unplaced : Fragment → Fragment
  | .text code => .text code
  | .site _ path => .site default path

mutual

theorem Expression.emit_unplaced : (expression : Expression) →
    expression.unplaced.emit = expression.emit
  | .literal .. | .identifier .. => rfl
  | .binary place operator left right => by
    have first := left.emit_unplaced
    have second := right.emit_unplaced
    change "(" ++ left.unplaced.emit ++ " " ++ operator.text ++ " " ++ right.unplaced.emit ++ ")" = _
    rw [first, second, emit]
  | .logical place operator left right => by
    have first := left.emit_unplaced
    have second := right.emit_unplaced
    change "(" ++ left.unplaced.emit ++ " " ++ operator.text ++ " " ++ right.unplaced.emit ++ ")" = _
    rw [first, second, emit]
  | .call place callee arguments => by
    have inner := Expression.emitAll_unplaced arguments
    change callee ++ "(" ++ commaSeparated (emitAll (unplacedAll arguments)) ++ ")" = _
    rw [inner, emit]

theorem Expression.emitAll_unplaced : (expressions : List Expression) →
    emitAll (unplacedAll expressions) = emitAll expressions
  | [] => rfl
  | expression :: rest => by
    have first := expression.emit_unplaced
    have others := Expression.emitAll_unplaced rest
    change expression.unplaced.emit :: emitAll (unplacedAll rest) = _
    rw [first, others, emitAll]

end

private theorem map_unplaced_braced (inner : List Fragment) :
    (braced inner).map Fragment.unplaced = braced (inner.map Fragment.unplaced) := by
  simp only [braced, List.map_cons, List.map_append, List.map_nil, Fragment.unplaced]

mutual

theorem Statement.emit_unplaced : (statement : Statement) →
    statement.unplaced.emit = statement.emit.map Fragment.unplaced
  | .declare place name value => by
    change [Fragment.text ("let " ++ name ++ " = " ++ value.unplaced.emit ++ ";")] = _
    rw [value.emit_unplaced]
    rfl
  | .assign place name value => by
    change [Fragment.text (name ++ " = " ++ value.unplaced.emit ++ ";")] = _
    rw [value.emit_unplaced]
    rfl
  | .block place body => by
    have inner := Statement.emitAll_unplaced body
    change braced (emitAll (unplacedAll body)) = _
    rw [inner, ← map_unplaced_braced]
    rfl
  | .branch place test consequent none => by
    have first := consequent.emit_unplaced
    change Fragment.text ("if (" ++ test.unplaced.emit ++ ") ") :: consequent.unplaced.emit = _
    rw [test.emit_unplaced, first]
    rfl
  | .branch place test consequent (some alternate) => by
    have first := consequent.emit_unplaced
    have second := alternate.emit_unplaced
    change Fragment.text ("if (" ++ test.unplaced.emit ++ ") ") ::
      (consequent.unplaced.emit ++ Fragment.text " else " :: alternate.unplaced.emit) = _
    rw [test.emit_unplaced, first, second, emit, List.map_cons, List.map_append, List.map_cons]
    rfl
  | .loop place test body => by
    have inner := body.emit_unplaced
    change Fragment.text ("while (" ++ test.unplaced.emit ++ ") ") :: body.unplaced.emit = _
    rw [test.emit_unplaced, inner]
    rfl
  | .function place name parameters body => by
    have inner := body.emit_unplaced
    change Fragment.text ("function " ++ name ++ "(" ++ commaSeparated parameters ++ ") ") ::
      (if body.unplaced.isBlock then body.unplaced.emit else braced body.unplaced.emit) = _
    rw [body.isBlock_unplaced, inner, ← map_unplaced_braced, ← apply_ite (List.map _), emit,
      List.map_cons]
    rfl
  | .giveBack place argument => by
    change [Fragment.text ("return " ++ argument.unplaced.emit ++ ";")] = _
    rw [argument.emit_unplaced]
    rfl
  | .print place argument => by
    change [Fragment.text ("console.log(" ++ argument.unplaced.emit ++ ");")] = _
    rw [argument.emit_unplaced]
    rfl
  | .importFile .. => rfl
  | .call place callee arguments => by
    change [Fragment.text ((Expression.call place callee arguments).unplaced.emit ++ ";")] = _
    rw [Expression.emit_unplaced]
    rfl

theorem Statement.emitAll_unplaced : (statements : List Statement) →
    emitAll (unplacedAll statements) = (emitAll statements).map Fragment.unplaced
  | [] => rfl
  | [statement] => statement.emit_unplaced
  | statement :: next :: rest => by
    have first := statement.emit_unplaced
    have others := Statement.emitAll_unplaced (next :: rest)
    change statement.unplaced.emit ++ Fragment.text "\n" :: emitAll (unplacedAll (next :: rest)) = _
    rw [first, others, emitAll, List.map_append, List.map_cons]
    rfl

end

private theorem standaloneText_unplaced (file : Option String) (fragments : List Fragment) :
    (standaloneText file fragments).mapError Error.unplaced =
      standaloneText file (fragments.map Fragment.unplaced) := by
  induction fragments with
  | nil => rfl
  | cons fragment rest ih =>
    cases fragment with
    | site place path => rfl
    | text code =>
      rw [List.map_cons, Fragment.unplaced, standaloneText, standaloneText, ← ih]
      cases standaloneText file rest <;> rfl

section
variable {program program' : Program}

/-- Programs that differ in spans only have the same emitted text around the same imports. -/
theorem Program.emit_alike (same : program.bare = program'.bare) :
    program.emit.map Fragment.unplaced = program'.emit.map Fragment.unplaced := by
  rw [emit, ← Statement.emitAll_unplaced, emit, ← Statement.emitAll_unplaced]
  exact congrArg (fun trees => Statement.emitAll (Bare.Statement.trees trees)) same

theorem Program.emitStandalone_alike (same : program.bare = program'.bare)
    (file : Option String) :
    (program.emitStandalone file).mapError Error.unplaced =
      (program'.emitStandalone file).mapError Error.unplaced := by
  rw [emitStandalone, standaloneText_unplaced, emit_alike same, ← standaloneText_unplaced,
    emitStandalone]

end

end ScriptKit
