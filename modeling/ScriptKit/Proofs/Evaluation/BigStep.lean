import ScriptKit.Evaluation

/-!
Running programs without registers. A statement is executed in a scope that is handed to it and ends
with a completion, so that a return is a result and not a state of the machine. The relations below
say what comes out of every construct, failures included, and nothing about how it is computed.
-/
namespace ScriptKit

/-- What running works on: all scopes so far, and the text printed so far. -/
structure Store where
  heap : Heap
  output : String

/-- How a statement ends that does not fail. -/
inductive Completion where
  | normal (value : Value)
  | returned (value : Value)

def Completion.value : Completion → Value
  | .normal value => value
  | .returned value => value

namespace Store

def declare (store : Store) (scope : ScopeId) (name : String) (value : Value) : Store :=
  { store with heap := store.heap.declare scope name value }

def print (store : Store) (text : String) : Store :=
  { store with output := store.output ++ text ++ "\n" }

/-- The scope that the next one made will be. -/
def nextScope (store : Store) : ScopeId := store.heap.scopes.size

/-- Makes the next scope, without bindings and inside `parent`. -/
def enter (store : Store) (parent : ScopeId) : Store :=
  { store with heap := (store.heap.newScope (some parent)).2 }

/-- Gives the parameter at each position the argument there; where there is none, the undefined
value. -/
def bindArguments (store : Store) (scope : ScopeId) (parameters : List String)
    (values : List Value) : Store :=
  parameters.zipIdx.foldl
    (fun store parameter => store.declare scope parameter.1 (values.getD parameter.2 .undefined))
    store

end Store

/-- Whether the left operand alone is the result. -/
def LogicalOperator.decidedBy (operator : LogicalOperator) (left : Value) : Bool :=
  match operator with
  | .and => !left.isTruthy
  | _ => left.isTruthy

def undefinedFault (file : Option String) (span : Span) (name : String) : RunFault :=
  .located file span (.undefinedVariable name)

section
variable (file : Option String)

mutual

/-- `Evaluates file scope before expression outcome after`: seen from `scope`, the expression has
the outcome and takes the store from `before` to `after`. -/
inductive Evaluates : ScopeId → Store → Expression → Except RunFault Value → Store → Prop where
  | literal : Evaluates scope store (.literal span value) (.ok (.ofLiteral value)) store
  | identifier (found : store.heap.find? scope name = some (owner, value)) :
      Evaluates scope store (.identifier span name) (.ok value) store
  | unbound (absent : store.heap.find? scope name = none) :
      Evaluates scope store (.identifier span name) (.error (undefinedFault file span name)) store
  | binary (first : Evaluates scope before left (.ok leftValue) middle)
      (second : Evaluates scope middle right (.ok rightValue) after) :
      Evaluates scope before (.binary span operator left right)
        (applyBinary file span operator leftValue rightValue) after
  | binaryLeft (first : Evaluates scope before left (.error fault) after) :
      Evaluates scope before (.binary span operator left right) (.error fault) after
  | binaryRight (first : Evaluates scope before left (.ok leftValue) middle)
      (second : Evaluates scope middle right (.error fault) after) :
      Evaluates scope before (.binary span operator left right) (.error fault) after
  | decided (first : Evaluates scope before left (.ok value) after)
      (enough : operator.decidedBy value = true) :
      Evaluates scope before (.logical span operator left right) (.ok value) after
  | undecided (first : Evaluates scope before left (.ok value) middle)
      (further : operator.decidedBy value = false)
      (second : Evaluates scope middle right outcome after) :
      Evaluates scope before (.logical span operator left right) outcome after
  | logicalLeft (first : Evaluates scope before left (.error fault) after) :
      Evaluates scope before (.logical span operator left right) (.error fault) after
  | call (called : Calls scope before span callee arguments outcome after) :
      Evaluates scope before (.call span callee arguments) outcome after

/-- Expressions from left to right, up to the first that fails. -/
inductive EvaluatesAll :
    ScopeId → Store → List Expression → Except RunFault (List Value) → Store → Prop where
  | nil : EvaluatesAll scope store [] (.ok []) store
  | cons (first : Evaluates scope before expression (.ok value) middle)
      (others : EvaluatesAll scope middle rest (.ok values) after) :
      EvaluatesAll scope before (expression :: rest) (.ok (value :: values)) after
  | head (first : Evaluates scope before expression (.error fault) after) :
      EvaluatesAll scope before (expression :: rest) (.error fault) after
  | tail (first : Evaluates scope before expression (.ok value) middle)
      (others : EvaluatesAll scope middle rest (.error fault) after) :
      EvaluatesAll scope before (expression :: rest) (.error fault) after

/-- The callee is looked up from the caller's scope. Its body is executed in a new scope inside the
one it was declared in, and however it completes, that is the value of the call. -/
inductive Calls :
    ScopeId → Store → Span → String → List Expression → Except RunFault Value → Store → Prop where
  | unbound (absent : store.heap.find? scope callee = none) :
      Calls scope store span callee arguments (.error (undefinedFault file span callee)) store
  | arguments (found : before.heap.find? scope callee = some target)
      (evaluated : EvaluatesAll scope before arguments (.error fault) after) :
      Calls scope before span callee arguments (.error fault) after
  | notAFunction (found : before.heap.find? scope callee = some (owner, target))
      (evaluated : EvaluatesAll scope before arguments (.ok values) after)
      (other : ∀ closure, target ≠ .function closure) :
      Calls scope before span callee arguments
        (.error (.located file span (.notAFunction callee))) after
  | body {closure : Closure}
      (found : before.heap.find? scope callee = some (owner, .function closure))
      (evaluated : EvaluatesAll scope before arguments (.ok values) middle)
      (executed : Executes middle.nextScope
        ((middle.enter closure.scope).bindArguments middle.nextScope closure.parameters values)
        closure.body outcome after) :
      Calls scope before span callee arguments (outcome.map Completion.value) after

/-- `Executes file scope before statement outcome after`: the statement, in `scope`, completes or
fails with the outcome and takes the store from `before` to `after`. -/
inductive Executes : ScopeId → Store → Statement → Except RunFault Completion → Store → Prop where
  | declare (evaluated : Evaluates scope before value (.ok result) after) :
      Executes scope before (.declare span name value) (.ok (.normal result))
        (after.declare scope name result)
  | declareFails (evaluated : Evaluates scope before value (.error fault) after) :
      Executes scope before (.declare span name value) (.error fault) after
  | assign (evaluated : Evaluates scope before value (.ok result) after)
      (found : after.heap.find? scope name = some (owner, old)) :
      Executes scope before (.assign span name value) (.ok (.normal result))
        (after.declare owner name result)
  | assignUnbound (evaluated : Evaluates scope before value (.ok result) after)
      (absent : after.heap.find? scope name = none) :
      Executes scope before (.assign span name value) (.error (undefinedFault file span name)) after
  | assignFails (evaluated : Evaluates scope before value (.error fault) after) :
      Executes scope before (.assign span name value) (.error fault) after
  | block (executed : ExecutesAll before.nextScope (before.enter scope) .undefined body outcome
        after) :
      Executes scope before (.block span body) outcome after
  | consequent (tested : Evaluates scope before test (.ok condition) middle)
      (holds : condition.isTruthy = true)
      (executed : Executes scope middle consequent outcome after) :
      Executes scope before (.branch span test consequent alternate) outcome after
  | alternate (tested : Evaluates scope before test (.ok condition) middle)
      (fails : condition.isTruthy = false)
      (executed : Executes scope middle alternate outcome after) :
      Executes scope before (.branch span test consequent (some alternate)) outcome after
  | noAlternate (tested : Evaluates scope before test (.ok condition) after)
      (fails : condition.isTruthy = false) :
      Executes scope before (.branch span test consequent none) (.ok (.normal .undefined)) after
  | branchFails (tested : Evaluates scope before test (.error fault) after) :
      Executes scope before (.branch span test consequent alternate) (.error fault) after
  | loop (looped : Loops scope before .undefined test body outcome after) :
      Executes scope before (.loop span test body) outcome after
  | function {closure : Closure}
      (made : before.heap.newFunction name parameters body scope = (closure, heap)) :
      Executes scope before (.function span name parameters body)
        (.ok (.normal (.function closure)))
        ({ before with heap := heap }.declare scope name (.function closure))
  | giveBack (evaluated : Evaluates scope before argument (.ok value) after) :
      Executes scope before (.giveBack span argument) (.ok (.returned value)) after
  | giveBackFails (evaluated : Evaluates scope before argument (.error fault) after) :
      Executes scope before (.giveBack span argument) (.error fault) after
  | print (evaluated : Evaluates scope before argument (.ok value) after)
      (shown : value.shown = .ok text) :
      Executes scope before (.print span argument) (.ok (.normal value)) (after.print text)
  | printUnshown (evaluated : Evaluates scope before argument (.ok value) after)
      (unshown : value.shown = .error fault) :
      Executes scope before (.print span argument) (.error fault) after
  | printFails (evaluated : Evaluates scope before argument (.error fault) after) :
      Executes scope before (.print span argument) (.error fault) after
  | importFile :
      Executes scope store (.importFile span path)
        (.error (.located file span (.importNotSupported path))) store
  | call (called : Calls scope before span callee arguments outcome after) :
      Executes scope before (.call span callee arguments) (outcome.map .normal) after

/-- Statements up to the first that returns or fails. Without any the completion is normal, with the
value of the statement before. -/
inductive ExecutesAll :
    ScopeId → Store → Value → List Statement → Except RunFault Completion → Store → Prop where
  | nil : ExecutesAll scope store previous [] (.ok (.normal previous)) store
  | next (first : Executes scope before statement (.ok (.normal value)) middle)
      (others : ExecutesAll scope middle value rest outcome after) :
      ExecutesAll scope before previous (statement :: rest) outcome after
  | returned (first : Executes scope before statement (.ok (.returned value)) after) :
      ExecutesAll scope before previous (statement :: rest) (.ok (.returned value)) after
  | failed (first : Executes scope before statement (.error fault) after) :
      ExecutesAll scope before previous (statement :: rest) (.error fault) after

/-- Rounds of a loop up to the first that returns or fails or whose test does. A loop ends with the
value of its last round. -/
inductive Loops :
    ScopeId → Store → Value → Expression → Statement → Except RunFault Completion → Store →
      Prop where
  | done (tested : Evaluates scope before test (.ok condition) after)
      (fails : condition.isTruthy = false) :
      Loops scope before previous test body (.ok (.normal previous)) after
  | testFails (tested : Evaluates scope before test (.error fault) after) :
      Loops scope before previous test body (.error fault) after
  | next (tested : Evaluates scope before test (.ok condition) entered)
      (holds : condition.isTruthy = true)
      (round : Executes scope entered body (.ok (.normal value)) middle)
      (others : Loops scope middle value test body outcome after) :
      Loops scope before previous test body outcome after
  | returned (tested : Evaluates scope before test (.ok condition) entered)
      (holds : condition.isTruthy = true)
      (round : Executes scope entered body (.ok (.returned value)) after) :
      Loops scope before previous test body (.ok (.returned value)) after
  | failed (tested : Evaluates scope before test (.ok condition) entered)
      (holds : condition.isTruthy = true)
      (round : Executes scope entered body (.error fault) after) :
      Loops scope before previous test body (.error fault) after

end

/-- A program is its statements, and its outcome is the value they complete with. -/
inductive Program.Runs :
    ScopeId → Store → Program → Except RunFault Value → Store → Prop where
  | statements (executed : ExecutesAll file scope before .undefined program.body outcome after) :
      Program.Runs scope before program (outcome.map Completion.value) after

end

end ScriptKit
