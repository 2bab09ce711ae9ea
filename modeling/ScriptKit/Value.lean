import ScriptKit.Number
import ScriptKit.Program

/-!
The values of running scripts. A function remembers the scope it was declared in and differs from
every function declared at another time.
-/
namespace ScriptKit

abbrev ScopeId := Nat

structure Closure where
  identity : Nat
  name : String
  parameters : List String
  body : Statement
  scope : ScopeId

inductive Value where
  | undefined
  | boolean (value : Bool)
  | number (value : Number)
  | string (value : String)
  | function (closure : Closure)

namespace Closure

def describe (closure : Closure) : String :=
  "FunctionValue(" ++ closure.name ++ "(" ++ String.intercalate ", " closure.parameters ++ "))"

end Closure

namespace Value

def ofLiteral : Literal → Value
  | .boolean value => .boolean value
  | .number value => .number value
  | .string value => .string value

/-- All values count as true but false, zero, the empty string and the undefined value. -/
def isTruthy : Value → Bool
  | .undefined => false
  | .boolean value => value
  | .number value => !value.isZero
  | .string value => !value.isEmpty
  | .function _ => true

def typeName : Value → String
  | .undefined => "undefined"
  | .boolean _ => "boolean"
  | .number _ => "number"
  | .string _ => "string"
  | .function _ => "function"

/-- The text that printing and joining use; none for an integer of too many digits. -/
def display? : Value → Option String
  | .undefined => some "undefined"
  | .boolean value => some (if value then "true" else "false")
  | .number value => value.display?
  | .string value => some value
  | .function closure => some ("[Function: " ++ closure.name ++ "]")

/-- Values of different types differ; functions are equal when they are the same one. -/
def equal : Value → Value → Bool
  | .undefined, .undefined => true
  | .boolean left, .boolean right => left == right
  | .number left, .number right => left.equal right
  | .string left, .string right => left == right
  | .function left, .function right => left.identity == right.identity
  | _, _ => false

/-- The outcome of `less` and `equal` for two numbers or two strings; other pairs have no order. -/
def order? : Value → Value → Option (Bool × Bool)
  | .number left, .number right => some (left.less right, left.equal right)
  | .string left, .string right => some (decide (left < right), left == right)
  | _, _ => none

end Value
end ScriptKit
