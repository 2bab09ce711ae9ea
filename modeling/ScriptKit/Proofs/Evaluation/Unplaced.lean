import ScriptKit.Evaluation
import ScriptKit.Proofs.Program.Unplaced
import ScriptKit.Proofs.Token.Layout
import ScriptKit.Proofs.Yields

/-!
Running takes from a span only the place of a fault. Without places, a run goes through the same
machines without places, and comes to the same end.
-/
namespace ScriptKit

/-- The same function, with a body that knows no places. -/
def Closure.unplaced (closure : Closure) : Closure :=
  { closure with body := closure.body.unplaced }

def Value.unplaced : Value → Value
  | .function closure => .function closure.unplaced
  | value => value

def Scope.unplaced (scope : Scope) : Scope :=
  { scope with bindings := scope.bindings.map fun binding => (binding.1, binding.2.unplaced) }

def Heap.unplaced (heap : Heap) : Heap := { heap with scopes := heap.scopes.map Scope.unplaced }

def Machine.unplaced (machine : Machine) : Machine :=
  { machine with heap := machine.heap.unplaced, pending := machine.pending.map Value.unplaced }

def RunFault.unplaced : RunFault → RunFault
  | .reported error => .reported error.unplaced
  | fault => fault

def Node.unplaced : Node → Node
  | .expression value => .expression value.unplaced
  | .statement value => .statement value.unplaced
  | .program value => .program value.unplaced
  | .span _ => .span default

namespace Value

private theorem isTruthy_unplaced (value : Value) : value.unplaced.isTruthy = value.isTruthy := by
  cases value <;> rfl

private theorem shown_unplaced (value : Value) : value.unplaced.shown = value.shown := by
  cases value <;> rfl

private theorem isString_unplaced (value : Value) : value.unplaced.isString = value.isString := by
  cases value <;> rfl

private theorem typeName_unplaced (value : Value) : value.unplaced.typeName = value.typeName := by
  cases value <;> rfl

private theorem equal_unplaced (left right : Value) :
    left.unplaced.equal right.unplaced = left.equal right := by
  cases left <;> cases right <;> rfl

private theorem order?_unplaced (left right : Value) :
    left.unplaced.order? right.unplaced = left.order? right := by
  cases left <;> cases right <;> rfl

end Value

namespace Scope

private theorem get?_unplaced (scope : Scope) (name : String) :
    scope.unplaced.get? name = (scope.get? name).map Value.unplaced := by
  unfold get? unplaced
  induction scope.bindings with
  | nil => rfl
  | cons binding rest ih =>
    obtain ⟨other, value⟩ := binding
    simp only [List.map_cons, List.lookup_cons, ih]
    cases name == other <;> rfl

private theorem declare_unplaced (scope : Scope) (name : String) (value : Value) :
    (scope.declare name value).unplaced = scope.unplaced.declare name value.unplaced := by
  have bound (bindings : List (String × Value)) :
      (Table.put name value bindings).map (fun binding => (binding.1, binding.2.unplaced)) =
        Table.put name value.unplaced
          (bindings.map fun binding => (binding.1, binding.2.unplaced)) := by
    induction bindings with
    | nil => rfl
    | cons binding rest ih =>
      obtain ⟨other, old⟩ := binding
      rw [Table.put, List.map_cons, Table.put, apply_ite (List.map _), List.map_cons, List.map_cons,
        ih]
  exact congrArg (Scope.mk scope.parent) (bound scope.bindings)

end Scope

namespace Heap

private theorem scope?_unplaced (heap : Heap) (id : ScopeId) :
    heap.unplaced.scope? id = (heap.scope? id).map Scope.unplaced :=
  Array.getElem?_map

private theorem newScope_unplaced (heap : Heap) (parent : Option ScopeId) :
    (heap.newScope parent).2.unplaced = (heap.unplaced.newScope parent).2 := by
  simp only [newScope, unplaced, Array.map_push]
  rfl

private theorem declare_unplaced (heap : Heap) (owner : ScopeId) (name : String) (value : Value) :
    (heap.declare owner name value).unplaced =
      heap.unplaced.declare owner name value.unplaced := by
  have scopes : (heap.declare owner name value).unplaced.scopes =
      (heap.unplaced.declare owner name value.unplaced).scopes := by
    apply Array.ext_getElem?
    intro id
    simp only [declare, unplaced, Array.getElem?_map, Array.getElem?_modify]
    split
    · cases heap.scopes[id]? with
      | none => rfl
      | some scope => exact congrArg some (scope.declare_unplaced name value)
    · rfl
  exact congrArg (Heap.mk · heap.functions) scopes

private theorem find?_unplaced (heap : Heap) (id : ScopeId) (name : String) :
    heap.unplaced.find? id name =
      (heap.find? id name).map fun found => (found.1, found.2.unplaced) := by
  fun_induction find? heap id name with
  | case1 id absent =>
    rw [find?, scope?_unplaced, absent]
    rfl
  | case2 id scope present value bound =>
    rw [find?, scope?_unplaced, present, Option.map_some]
    simp only [Scope.get?_unplaced, bound, Option.map_some]
  | case3 id scope present unbound parent inside older ih =>
    rw [find?, scope?_unplaced, present, Option.map_some]
    simp only [Scope.get?_unplaced, unbound, Option.map_none]
    simp only [Scope.unplaced, inside, if_pos older, ih]
  | case4 id scope present unbound parent inside younger =>
    rw [find?, scope?_unplaced, present, Option.map_some]
    simp only [Scope.get?_unplaced, unbound, Option.map_none]
    simp only [Scope.unplaced, inside, if_neg younger]
  | case5 id scope present unbound outermost =>
    rw [find?, scope?_unplaced, present, Option.map_some]
    simp only [Scope.get?_unplaced, unbound, Option.map_none]
    simp only [Scope.unplaced, outermost]

end Heap

/-- An outcome without places, given what that is for the values. -/
def outcomeUnplaced {α : Type} (blur : α → α) (outcome : Except RunFault α) : Except RunFault α :=
  (outcome.map blur).mapError RunFault.unplaced

section
variable (file : Option String) (place : Span) (operator : BinaryOperator)

private theorem applyArithmetic_unplaced (left right : Number) :
    outcomeUnplaced Value.unplaced (applyArithmetic file place operator left right) =
      applyArithmetic file default operator left right := by
  unfold applyArithmetic
  rcases arithmetic operator left right with - | ⟨fault | value⟩
  · rfl
  · cases fault <;> rfl
  · rfl

private theorem typeMismatch_unplaced (left right : Value) :
    (typeMismatch file place operator left right).unplaced =
      typeMismatch file default operator left.unplaced right.unplaced := by
  unfold typeMismatch
  rw [left.typeName_unplaced, right.typeName_unplaced]
  rfl

private theorem applyBinary_unplaced (left right : Value) :
    outcomeUnplaced Value.unplaced (applyBinary file place operator left right) =
      applyBinary file default operator left.unplaced right.unplaced := by
  have mismatch : outcomeUnplaced Value.unplaced (.error (typeMismatch file place operator left right)) =
      .error (typeMismatch file default operator left.unplaced right.unplaced) :=
    congrArg Except.error (typeMismatch_unplaced file place operator left right)
  unfold applyBinary
  rw [left.equal_unplaced, left.isString_unplaced, right.isString_unplaced, left.shown_unplaced,
    right.shown_unplaced, left.order?_unplaced, right.order?_unplaced]
  split
  · rfl
  · split
    · rfl
    · split
      · -- The only fault of showing a value has no place.
        unfold Value.shown
        cases left.display? <;> cases right.display? <;> rfl
      · split
        · cases left.order? right with
          | none => exact mismatch
          | some order =>
            cases right.order? left with
            | none => exact mismatch
            | some reversed => rfl
        · cases left with
          | number first =>
            cases right with
            | number second => exact applyArithmetic_unplaced file place operator first second
            | _ => exact mismatch
          | _ => exact mismatch

end

/-- What one action does on a machine, the other does without places. -/
def Mirrors {α : Type} (blur : α → α) (action action' : Run α) : Prop :=
  ∀ ⦃before result after⦄, Yields action before result after →
    Yields action' before.unplaced (outcomeUnplaced blur result) after.unplaced

namespace Mirrors

variable {α β : Type} {blur : α → α} {blur' : β → β} {action action' : Run α}

theorem pure (value : α) : Mirrors blur (pure value) (pure (blur value)) := by
  intro before result after run
  obtain ⟨rfl, rfl⟩ := yields_pure.mp run
  exact .pure

theorem fail (fault : RunFault) : Mirrors blur (Run.fail fault) (Run.fail fault.unplaced) := by
  intro before result after run
  obtain ⟨rfl, rfl⟩ := yields_throw.mp run
  exact .throw

theorem report (file : Option String) (place : Span) (cause : Cause) :
    Mirrors blur (Run.report file place cause) (Run.report file default cause) :=
  fail (.located file place cause)

theorem settle {outcome outcome' : Except RunFault α}
    (same : outcomeUnplaced blur outcome = outcome') :
    Mirrors blur (Run.settle outcome) (Run.settle outcome') := by
  subst same
  cases outcome with
  | ok value => exact pure value
  | error fault => exact fail fault

theorem bind {next next' : α → Run β} (first : Mirrors blur action action')
    (rest : ∀ value, Mirrors blur' (next value) (next' (blur value))) :
    Mirrors blur' (action >>= next) (action' >>= next') := by
  intro before result after run
  rcases yields_bind.mp run with ⟨value, middle, one, two⟩ | ⟨fault, one, rfl⟩
  · exact (first one).bind (rest value two)
  · exact (first one).bind_error

theorem get : Mirrors Machine.unplaced get get := by
  intro before result after run
  obtain ⟨rfl, rfl⟩ := yields_get.mp run
  exact .get

theorem modify {change change' : Machine → Machine}
    (same : ∀ machine, (change machine).unplaced = change' machine.unplaced) :
    Mirrors id (modify change) (modify change') := by
  intro before result after run
  obtain ⟨rfl, rfl⟩ := yields_modify.mp run
  exact yields_modify.mpr ⟨rfl, same before⟩

theorem set (machine : Machine) : Mirrors id (set machine) (set machine.unplaced) := by
  intro before result after run
  obtain ⟨rfl, rfl⟩ := yields_set.mp run
  exact .set

theorem within (scope : ScopeId) (inner : Mirrors blur action action') :
    Mirrors blur (Run.within scope action) (Run.within scope action') := by
  intro before result after run
  obtain ⟨rfl, rfl⟩ := Prod.mk.inj run
  have mirrored := inner (yields_run action { before with scope := scope })
  unfold Yields Run.within at *
  exact congrArg (fun outcome => (outcome.1, { outcome.2 with scope := before.scope })) mirrored

theorem isReturning : Mirrors id Run.isReturning Run.isReturning := by
  refine get.bind fun machine => ?_
  have same : machine.unplaced.pending.isSome = machine.pending.isSome := Option.isSome_map
  rw [same]
  exact pure _

theorem newScope (parent : ScopeId) : Mirrors id (Run.newScope parent) (Run.newScope parent) := by
  refine get.bind fun machine => ?_
  have grown : Machine.unplaced { machine with heap := (machine.heap.newScope (some parent)).2 } =
      { machine.unplaced with heap := (machine.unplaced.heap.newScope (some parent)).2 } :=
    congrArg (fun heap => { machine.unplaced with heap := heap })
      (machine.heap.newScope_unplaced (some parent))
  have size : machine.unplaced.heap.scopes.size = machine.heap.scopes.size := Array.size_map
  refine (grown ▸ set _).bind fun _ => ?_
  change Mirrors id (Pure.pure machine.heap.scopes.size) (Pure.pure machine.unplaced.heap.scopes.size)
  rw [size]
  exact pure _

theorem declare (owner : ScopeId) (name : String) (value : Value) :
    Mirrors id (Run.declare owner name value) (Run.declare owner name value.unplaced) := by
  refine modify fun machine => ?_
  exact congrArg (fun heap => { machine.unplaced with heap := heap })
    (machine.heap.declare_unplaced owner name value)

theorem lookup (file : Option String) (place : Span) (name : String) :
    Mirrors (fun found => (found.1, found.2.unplaced)) (Run.lookup file place name)
      (Run.lookup file default name) := by
  refine get.bind fun machine => ?_
  have same : machine.unplaced.heap.find? machine.unplaced.scope name =
      (machine.heap.find? machine.scope name).map fun found => (found.1, found.2.unplaced) :=
    machine.heap.find?_unplaced machine.scope name
  rw [same]
  cases machine.heap.find? machine.scope name with
  | none => exact report file place (.undefinedVariable name)
  | some found => exact pure found

theorem bindParameters (scope : ScopeId) (parameters : List String) (values : List Value) :
    Mirrors id (Run.bindParameters scope parameters values)
      (Run.bindParameters scope parameters (values.map Value.unplaced)) := by
  induction parameters generalizing values with
  | nil => exact pure ()
  | cons name names ih =>
    cases values with
    | nil => exact (declare scope name .undefined).bind fun _ => ih []
    | cons value values =>
      exact (declare scope name value).bind fun _ => ih values

theorem takeReturn (result : Value) :
    Mirrors Value.unplaced (ScriptKit.takeReturn result) (ScriptKit.takeReturn result.unplaced) := by
  refine get.bind fun machine => ?_
  obtain ⟨heap, scope, pending, output⟩ := machine
  cases pending with
  | none => exact pure result
  | some value => exact (set ⟨heap, scope, none, output⟩).bind fun _ => pure value

end Mirrors

section
variable {evaluate evaluate' : Node → Run Value}
  (inner : ∀ node, Mirrors Value.unplaced (evaluate node) (evaluate' node.unplaced))
include inner

private theorem evaluateAll_mirrors (expressions : List Expression) :
    Mirrors (List.map Value.unplaced) (evaluateAll evaluate expressions)
      (evaluateAll evaluate' (Expression.unplacedAll expressions)) := by
  induction expressions with
  | nil => exact .pure []
  | cons expression rest ih =>
    refine (inner (.expression expression)).bind fun value => ?_
    exact ih.bind fun values => .pure (value :: values)

private theorem runStatements_mirrors (result : Value) (statements : List Statement) :
    Mirrors Value.unplaced (runStatements evaluate result statements)
      (runStatements evaluate' result.unplaced (Statement.unplacedAll statements)) := by
  induction statements generalizing result with
  | nil => exact .pure result
  | cons statement rest ih =>
    refine (inner (.statement statement)).bind fun value => ?_
    refine Mirrors.isReturning.bind fun returning => ?_
    cases returning with
    | true => exact .pure value
    | false => exact ih value

private theorem runLoop_mirrors (test : Expression) (body : Statement) (fuel : Nat)
    (result : Value) :
    Mirrors Value.unplaced (runLoop evaluate test body fuel result)
      (runLoop evaluate' test.unplaced body.unplaced fuel result.unplaced) := by
  induction fuel generalizing result with
  | zero => exact .fail .outOfFuel
  | succ fuel ih =>
    refine (inner (.expression test)).bind fun condition => ?_
    rw [condition.isTruthy_unplaced]
    split
    · refine (inner (.statement body)).bind fun value => ?_
      refine Mirrors.isReturning.bind fun returning => ?_
      cases returning with
      | true => exact .pure value
      | false => exact ih value
    · exact .pure result

private theorem runCall_mirrors (file : Option String) (place : Span) (callee : String)
    (arguments : List Expression) :
    Mirrors Value.unplaced (runCall file evaluate place callee arguments)
      (runCall file evaluate' default callee (Expression.unplacedAll arguments)) := by
  refine (Mirrors.lookup file place callee).bind fun found => ?_
  refine (evaluateAll_mirrors inner arguments).bind fun values => ?_
  obtain ⟨owner, target⟩ := found
  cases target with
  | function closure =>
    refine (Mirrors.newScope closure.scope).bind fun scope => ?_
    refine (Mirrors.bindParameters scope closure.parameters values).bind fun _ => ?_
    refine (Mirrors.within scope (inner (.statement closure.body))).bind fun result => ?_
    exact .takeReturn result
  | _ => exact .report file place (.notAFunction callee)

private theorem evaluateExpression_mirrors (file : Option String) (expression : Expression) :
    Mirrors Value.unplaced (evaluateExpression file evaluate expression)
      (evaluateExpression file evaluate' expression.unplaced) := by
  cases expression with
  | literal place value => cases value <;> exact .pure _
  | identifier place name =>
    exact (Mirrors.lookup file place name).bind fun found => .pure found.2
  | binary place operator left right =>
    refine (inner (.expression left)).bind fun first => ?_
    refine (inner (.expression right)).bind fun second => ?_
    exact .settle (applyBinary_unplaced file place operator first second)
  | logical place operator left right =>
    refine (inner (.expression left)).bind fun first => ?_
    rw [first.isTruthy_unplaced]
    split
    · exact inner (.expression right)
    · exact .pure first
  | call place callee arguments => exact runCall_mirrors inner file place callee arguments

private theorem runStatement_mirrors (file : Option String) (fuel : Nat) (statement : Statement) :
    Mirrors Value.unplaced (runStatement file fuel evaluate statement)
      (runStatement file fuel evaluate' statement.unplaced) := by
  cases statement with
  | declare place name value =>
    refine (inner (.expression value)).bind fun result => ?_
    refine Mirrors.get.bind fun machine => ?_
    exact (Mirrors.declare machine.scope name result).bind fun _ => .pure result
  | assign place name value =>
    refine (inner (.expression value)).bind fun result => ?_
    refine (Mirrors.lookup file place name).bind fun found => ?_
    exact (Mirrors.declare found.1 name result).bind fun _ => .pure result
  | block place body =>
    refine Mirrors.get.bind fun machine => ?_
    refine (Mirrors.newScope machine.scope).bind fun scope => ?_
    exact .within scope (runStatements_mirrors inner .undefined body)
  | branch place test consequent alternate =>
    cases alternate with
    | none =>
      refine (inner (.expression test)).bind fun condition => ?_
      rw [condition.isTruthy_unplaced]
      split
      · exact inner (.statement consequent)
      · exact .pure Value.undefined
    | some other =>
      refine (inner (.expression test)).bind fun condition => ?_
      rw [condition.isTruthy_unplaced]
      split
      · exact inner (.statement consequent)
      · exact inner (.statement other)
  | loop place test body => exact runLoop_mirrors inner test body fuel .undefined
  | function place name parameters body =>
    refine Mirrors.get.bind fun machine => ?_
    refine (Mirrors.set _).bind fun _ => ?_
    exact (Mirrors.declare machine.scope name _).bind fun _ => .pure _
  | giveBack place argument =>
    refine (inner (.expression argument)).bind fun value => ?_
    refine (Mirrors.modify ?_).bind fun _ => .pure value
    exact fun _ => rfl
  | print place argument =>
    refine (inner (.expression argument)).bind fun value => ?_
    have shown : outcomeUnplaced id value.shown = value.unplaced.shown := by
      rw [value.shown_unplaced, Value.shown]
      cases value.display? <;> rfl
    refine (Mirrors.settle shown).bind fun text => ?_
    refine (Mirrors.modify ?_).bind fun _ => .pure value
    exact fun _ => rfl
  | importFile place path => exact .report file place (.importNotSupported path)
  | call place callee arguments => exact runCall_mirrors inner file place callee arguments

private theorem evaluateStep_mirrors (file : Option String) (fuel : Nat) (node : Node) :
    Mirrors Value.unplaced (evaluateStep file fuel evaluate node)
      (evaluateStep file fuel evaluate' node.unplaced) := by
  cases node with
  | expression value => exact evaluateExpression_mirrors inner file value
  | statement value => exact runStatement_mirrors inner file fuel value
  | program value => exact runStatements_mirrors inner .undefined value.body
  | span place => exact .fail .unhandledNode

end

/-- Evaluation without places mirrors evaluation, whatever the fuel. -/
theorem evaluate_mirrors (file : Option String) (fuel : Nat) (node : Node) :
    Mirrors Value.unplaced (evaluate file fuel node) (evaluate file fuel node.unplaced) := by
  induction fuel generalizing node with
  | zero => exact .fail .outOfFuel
  | succ fuel ih => exact evaluateStep_mirrors ih file fuel node

/-- Programs that differ in spans only print the same, also when they fail, and end in the same way. -/
theorem Machine.run_alike {program program' : Program} (same : program.bare = program'.bare)
    (file : Option String) (fuel : Nat) :
    outcomeUnplaced Value.unplaced (initial.run file fuel program).1 =
        outcomeUnplaced Value.unplaced (initial.run file fuel program').1 ∧
      (initial.run file fuel program).2.output = (initial.run file fuel program').2.output := by
  have mirrored (program : Program) := evaluate_mirrors file fuel (.program program)
    (yields_run (ScriptKit.evaluate file fuel (.program program)) initial)
  have second := mirrored program'
  rw [Node.unplaced, ← Program.unplaced_congr same] at second
  obtain ⟨outcomes, machines⟩ := (mirrored program).unique second
  exact ⟨outcomes, (congrArg Machine.output machines :)⟩

/-- What is made of one program and what is made of the other differ in places only. -/
structure Program.Agrees (file : Option String) (program program' : Program) : Prop where
  trees : program.bare = program'.bare
  emitted : program.emit.map Fragment.unplaced = program'.emit.map Fragment.unplaced
  standalone : (program.emitStandalone file).mapError Error.unplaced =
    (program'.emitStandalone file).mapError Error.unplaced
  outcomes : ∀ fuel, outcomeUnplaced Value.unplaced (Machine.initial.run file fuel program).1 =
    outcomeUnplaced Value.unplaced (Machine.initial.run file fuel program').1
  outputs : ∀ fuel, (Machine.initial.run file fuel program).2.output =
    (Machine.initial.run file fuel program').2.output

theorem Program.agrees_of_bare {program program' : Program} (same : program.bare = program'.bare)
    (file : Option String) : program.Agrees file program' where
  trees := same
  emitted := emit_alike same
  standalone := emitStandalone_alike same file
  outcomes fuel := (Machine.run_alike same file fuel).1
  outputs fuel := (Machine.run_alike same file fuel).2

/-- Two sources are programs that agree, or have errors that differ in places only. -/
def Program.SameMeaning (file : Option String) :
    Except SourceFault Program → Except SourceFault Program → Prop
  | .ok program, .ok program' => program.Agrees file program'
  | .error fault, .error fault' => fault.unplaced = fault'.unplaced
  | _, _ => False

/-- Layout carries no meaning: a source with other gaps is read as the same lexemes, and what is made
of them differs in places only. -/
theorem Relaid.same_meaning (relaid : Relaid source source')
    (read : TokenStream.ofSource source = .ok stream) (file : Option String) :
    (∃ stream', TokenStream.ofSource source' = .ok stream' ∧
      lexemes stream'.tokens = lexemes stream.tokens) ∧
    Program.SameMeaning file (Program.ofSource source file) (Program.ofSource source' file) := by
  obtain ⟨stream', read', same⟩ := relaid.ofSource read
  refine ⟨⟨stream', read', same⟩, ?_⟩
  have alike := Program.ofStream_alike same.symm file
  unfold Program.ofSource
  simp only [read, read']
  cases first : Program.ofStream stream file with
  | ok program =>
    cases second : Program.ofStream stream' file with
    | ok program' =>
      rw [first, second] at alike
      exact Program.agrees_of_bare (Except.ok.inj alike) file
    | error fault' =>
      rw [first, second] at alike
      cases alike
  | error fault =>
    cases second : Program.ofStream stream' file with
    | ok program' =>
      rw [first, second] at alike
      cases alike
    | error fault' =>
      rw [first, second] at alike
      exact Except.error.inj alike

/-- A string is no comment, and a parenthesis in a comment is no token. -/
theorem Relaid.same_meaning_comments :
    Relaid "print(\"a//b\");" " //\n\tprint\n//(\n( \"a//b\");" ∧
    (∃ stream stream', TokenStream.ofSource "print(\"a//b\");" = .ok stream ∧
      TokenStream.ofSource " //\n\tprint\n//(\n( \"a//b\");" = .ok stream' ∧
      lexemes stream'.tokens = lexemes stream.tokens) ∧
    Program.SameMeaning none (Program.ofSource "print(\"a//b\");" none)
      (Program.ofSource " //\n\tprint\n//(\n( \"a//b\");" none) := by
  have splits : Splits "print(\"a//b\");".toList
      [⟨[], "print".toList, .keyword .printWord⟩, ⟨[], "(".toList, .symbol .leftParen⟩,
        ⟨[], "\"a//b\"".toList, .string "a//b"⟩, ⟨[], ")".toList, .symbol .rightParen⟩,
        ⟨[], ";".toList, .symbol .semicolon⟩] [] := by
    have worded : Munched (.keyword .printWord) "print".toList "(\"a//b\");".toList :=
      Lexeme.Spelled.keyword.munched nofun (by decide)
    have quoted : Munched (.string "a//b") "\"a//b\"".toList ");".toList :=
      (@Lexeme.Spelled.string "a//b".toList (by decide)).munched nofun (by decide)
    have signed (sign : Symbol) (rest : String) (apart : Apart rest.toList) :
        Munched (.symbol sign) sign.text.toList rest.toList :=
      Lexeme.Spelled.symbol.munched nofun apart
    refine .cons .nil worded (.cons .nil (signed .leftParen "\"a//b\");" (by decide)) ?_)
    refine .cons .nil quoted (.cons .nil (signed .rightParen ";" (by decide)) ?_)
    exact .cons .nil (signed .semicolon "" (by decide)) .nil
  have first : Spacer " //\n\t".toList :=
    ⟨.space rfl (@Filler.comment [] _ (by decide) (.space rfl .nil)), ' ', _, rfl, rfl⟩
  have second : Spacer "\n//(\n".toList :=
    ⟨.space rfl (@Filler.comment ['('] _ (by decide) .nil), '\n', _, rfl, rfl⟩
  have third : Spacer [' '] := ⟨.space rfl .nil, ' ', _, rfl, rfl⟩
  have relaid : Relaid "print(\"a//b\");" " //\n\tprint\n//(\n( \"a//b\");" :=
    ⟨_, [], _, [], splits, .nil,
      .spaced first (.spaced second (.spaced third (.kept (.kept .nil)))), .inl rfl, rfl⟩
  have read := splits.tokensFrom_ok .nil fun _ => splits.fits_of_length_le (by decide)
  obtain ⟨⟨stream', read', same⟩, meaning⟩ := relaid.same_meaning read none
  exact ⟨relaid, ⟨_, stream', read, read', same⟩, meaning⟩

end ScriptKit
