import ScriptKit.Error
import ScriptKit.Scope
import ScriptKit.Text.Quoted

/-!
Running programs. The machine has a current scope and a slot for a pending return: a return fills the
slot, statement lists and loops stop once it is filled, and the nearest call empties it. Every
activity is bounded by fuel; running out of fuel is an outcome of its own. Out of scope are the limit
that a host sets on nested calls, and faults of the console.
-/
namespace ScriptKit

structure Machine where
  heap : Heap
  scope : ScopeId
  pending : Option Value
  output : String

/-- Why a run has no value. -/
inductive RunFault where
  | reported (error : Error)
  | integerTooLarge
  | quotientTooLarge
  | undisplayable
  | unknownOperator (text : String)
  | unhandledNode
  | outOfFuel
deriving DecidableEq

/-- An error of a script at a place in its text. -/
def RunFault.located (file : Option String) (span : Span) (cause : Cause) : RunFault :=
  .reported ⟨.running, cause, some span, file⟩

/-- A step of a run keeps the machine, also when it fails. -/
abbrev Run := ExceptT RunFault (StateM Machine)

namespace Run

def fail {α : Type} (fault : RunFault) : Run α := throw fault

/-- Goes on with a value, or fails; the machine stays as it is. -/
def settle {α : Type} : Except RunFault α → Run α
  | .ok value => return value
  | .error fault => fail fault

def report {α : Type} (file : Option String) (span : Span) (cause : Cause) : Run α :=
  fail (.located file span cause)

/-- Runs with another current scope, and comes back to the old one however it ends. -/
def within {α : Type} (scope : ScopeId) (action : Run α) : Run α := fun machine =>
  let (result, after) := action.run.run { machine with scope := scope }
  (result, { after with scope := machine.scope })

def isReturning : Run Bool := return (← get).pending.isSome

def newScope (parent : ScopeId) : Run ScopeId := do
  let machine ← get
  let (id, heap) := machine.heap.newScope (some parent)
  set { machine with heap := heap }
  return id

def declare (scope : ScopeId) (name : String) (value : Value) : Run Unit :=
  modify fun machine => { machine with heap := machine.heap.declare scope name value }

/-- The scope that binds a name and the value there, seen from the current scope. -/
def lookup (file : Option String) (span : Span) (name : String) : Run (ScopeId × Value) := do
  let machine ← get
  match machine.heap.find? machine.scope name with
  | some found => return found
  | none => report file span (.undefinedVariable name)

/-- Gives parameters their arguments by position; a missing argument is undefined. -/
def bindParameters (scope : ScopeId) : List String → List Value → Run Unit
  | [], _ => return
  | name :: names, [] => do
    declare scope name .undefined
    bindParameters scope names []
  | name :: names, value :: values => do
    declare scope name value
    bindParameters scope names values

end Run

def arithmetic (operator : BinaryOperator) (left right : Number) :
    Option (Except Number.Fault Number) :=
  match operator with
  | .plus => some (left.add right)
  | .minus => some (left.subtract right)
  | .times => some (left.multiply right)
  | .divide => some (left.divide right)
  | .modulo => some (left.remainder right)
  | _ => none

/-- What an order operator says of two ordered values, given whether the first is less and whether
they are equal; none for other operators. A number that is not a number is neither less nor equal nor
greater. -/
def comparison (operator : BinaryOperator) (order reversed : Bool × Bool) : Option Bool :=
  match operator with
  | .greater => some reversed.1
  | .greaterEqual => some (reversed.1 || reversed.2)
  | .less => some order.1
  | .lessEqual => some (order.1 || order.2)
  | _ => none

def BinaryOperator.isOrder : BinaryOperator → Bool
  | .greater | .greaterEqual | .less | .lessEqual => true
  | _ => false

def Value.isString : Value → Bool
  | .string _ => true
  | _ => false

/-- The text of a value, or the fault of having none. -/
def Value.shown (value : Value) : Except RunFault String :=
  match value.display? with
  | some text => .ok text
  | none => .error .undisplayable

/-- Arithmetic on two numbers, with its faults as faults of the run. -/
def applyArithmetic (file : Option String) (span : Span) (operator : BinaryOperator)
    (left right : Number) : Except RunFault Value :=
  match arithmetic operator left right with
  | none => .error (.unknownOperator operator.text)
  | some (.ok value) => .ok (.number value)
  | some (.error .integerTooLarge) => .error .integerTooLarge
  | some (.error .quotientTooLarge) => .error .quotientTooLarge
  | some (.error .zeroDivisor) => .error (.located file span (.divisionByZero operator.text))

def typeMismatch (file : Option String) (span : Span) (operator : BinaryOperator)
    (left right : Value) : RunFault :=
  .located file span (.operandTypeMismatch operator.text left.typeName right.typeName)

/-- Equality takes any values and joining at least one string; order takes two numbers or two
strings, and all else takes two numbers. -/
def applyBinary (file : Option String) (span : Span) (operator : BinaryOperator)
    (left right : Value) : Except RunFault Value :=
  if operator = .equal then .ok (.boolean (left.equal right))
  else if operator = .notEqual then .ok (.boolean (!left.equal right))
  else if operator = .plus ∧ (left.isString ∨ right.isString) then do
    let first ← left.shown
    let second ← right.shown
    return .string (first ++ second)
  else if operator.isOrder then
    match left.order? right, right.order? left with
    | some order, some reversed => .ok (.boolean ((comparison operator order reversed).getD false))
    | _, _ => .error (typeMismatch file span operator left right)
  else
    match left, right with
    | .number first, .number second => applyArithmetic file span operator first second
    | _, _ => .error (typeMismatch file span operator left right)

/-- Evaluates expressions from left to right. -/
def evaluateAll (evaluate : Node → Run Value) : List Expression → Run (List Value)
  | [] => return []
  | expression :: rest => do
    let value ← evaluate (.expression expression)
    let values ← evaluateAll evaluate rest
    return value :: values

/-- Runs statements until one leaves a return pending; the value is that of the last one run. -/
def runStatements (evaluate : Node → Run Value) (result : Value) : List Statement → Run Value
  | [] => return result
  | statement :: rest => do
    let value ← evaluate (.statement statement)
    if ← Run.isReturning then return value else runStatements evaluate value rest

/-- Runs a loop for at most `fuel` rounds. -/
def runLoop (evaluate : Node → Run Value) (test : Expression) (body : Statement) :
    Nat → Value → Run Value
  | 0, _ => Run.fail .outOfFuel
  | fuel + 1, result => do
    let condition ← evaluate (.expression test)
    if condition.isTruthy then
      let value ← evaluate (.statement body)
      if ← Run.isReturning then return value else runLoop evaluate test body fuel value
    else return result

/-- Empties the slot of a pending return; what was in it takes the place of the result. -/
def takeReturn (result : Value) : Run Value := do
  let machine ← get
  match machine.pending with
  | none => return result
  | some value =>
    set { machine with pending := none }
    return value

/-- The callee is looked up before the arguments are evaluated, and has to be a function only after
that. Its body runs in a new scope inside the one it was declared in. -/
def runCall (file : Option String) (evaluate : Node → Run Value) (span : Span) (callee : String)
    (arguments : List Expression) : Run Value := do
  let (_, target) ← Run.lookup file span callee
  let values ← evaluateAll evaluate arguments
  match target with
  | .function closure => do
    let scope ← Run.newScope closure.scope
    Run.bindParameters scope closure.parameters values
    let result ← Run.within scope (evaluate (.statement closure.body))
    takeReturn result
  | _ => Run.report file span (.notAFunction callee)

def evaluateExpression (file : Option String) (evaluate : Node → Run Value) :
    Expression → Run Value
  | .literal _ value => return .ofLiteral value
  | .identifier span name => do
    let (_, value) ← Run.lookup file span name
    return value
  | .binary span operator left right => do
    let first ← evaluate (.expression left)
    let second ← evaluate (.expression right)
    Run.settle (applyBinary file span operator first second)
  | .logical _ operator left right => do
    let first ← evaluate (.expression left)
    if first.isTruthy = (operator == .and) then evaluate (.expression right) else return first
  | .call span callee arguments => runCall file evaluate span callee arguments

def runStatement (file : Option String) (fuel : Nat) (evaluate : Node → Run Value) :
    Statement → Run Value
  | .declare _ name value => do
    let result ← evaluate (.expression value)
    Run.declare (← get).scope name result
    return result
  | .assign span name value => do
    let result ← evaluate (.expression value)
    let (owner, _) ← Run.lookup file span name
    Run.declare owner name result
    return result
  | .block _ body => do
    let scope ← Run.newScope (← get).scope
    Run.within scope (runStatements evaluate .undefined body)
  | .branch _ test consequent alternate => do
    let condition ← evaluate (.expression test)
    if condition.isTruthy then evaluate (.statement consequent)
    else
      match alternate with
      | some other => evaluate (.statement other)
      | none => return .undefined
  | .loop _ test body => runLoop evaluate test body fuel .undefined
  | .function _ name parameters body => do
    let machine ← get
    let (closure, heap) := machine.heap.newFunction name parameters body machine.scope
    set { machine with heap := heap }
    Run.declare machine.scope name (.function closure)
    return .function closure
  | .giveBack _ argument => do
    let value ← evaluate (.expression argument)
    modify fun machine => { machine with pending := some value }
    return value
  | .print _ argument => do
    let value ← evaluate (.expression argument)
    let text ← Run.settle value.shown
    modify fun machine => { machine with output := machine.output ++ text ++ "\n" }
    return value
  | .importFile span path => Run.report file span (.importNotSupported path)
  | .call span callee arguments => runCall file evaluate span callee arguments

/-- One node, given how the nodes inside it are evaluated. -/
def evaluateStep (file : Option String) (fuel : Nat) (evaluate : Node → Run Value) :
    Node → Run Value
  | .expression value => evaluateExpression file evaluate value
  | .statement value => runStatement file fuel evaluate value
  | .program value => runStatements evaluate .undefined value.body
  | .span _ => Run.fail .unhandledNode

/-- The value of a node, reached with nesting and loops of at most `fuel`. -/
def evaluate (file : Option String) : Nat → Node → Run Value
  | 0, _ => Run.fail .outOfFuel
  | fuel + 1, node => evaluateStep file fuel (evaluate file fuel) node

namespace Machine

/-- A machine with an empty global scope. -/
def initial : Machine :=
  ⟨(Heap.empty.newScope none).2, 0, none, ""⟩

def globalScope : ScopeId := 0

def evaluate (machine : Machine) (file : Option String) (fuel : Nat) (node : Node) :
    Except RunFault Value × Machine :=
  (ScriptKit.evaluate file fuel node).run.run machine

/-- Runs a whole program. No return is pending afterwards, whatever the outcome. -/
def run (machine : Machine) (file : Option String) (fuel : Nat) (program : Program) :
    Except RunFault Value × Machine :=
  let (result, after) := machine.evaluate file fuel (.program program)
  (result, { after with pending := none })

end Machine

/-- Fuel no script that ends in practice uses up. -/
def amplyFuelled : Nat := Nat.pow 2 60

namespace RunFault

def message : RunFault → String
  | .reported error => error.message
  | .integerTooLarge => "int too large to convert to float"
  | .quotientTooLarge => "integer division result too large for a float"
  | .undisplayable =>
    "Exceeds the limit (4300 digits) for integer string conversion; use " ++
      "sys.set_int_max_str_digits() to increase the limit"
  | .unknownOperator text => Text.shown text
  | .unhandledNode => "The evaluator has no handler for node type 'Span'."
  | .outOfFuel => "out of fuel"

end RunFault
end ScriptKit
