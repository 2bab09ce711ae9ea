import ScriptKit.Number.Decimal

/-!
The numbers of scripts: integers of any size and doubles. Two integers stay exact; as soon as a
double takes part, both operands are doubles.
-/
namespace ScriptKit

inductive Number where
  | integer (value : Int)
  | double (value : Double)
deriving DecidableEq

namespace Number

/-- What keeps an arithmetic operation from having a result. -/
inductive Fault where
  | integerTooLarge
  | quotientTooLarge
  | zeroDivisor
deriving DecidableEq

def toDouble : Number → Except Fault Double
  | .double value => .ok value
  | .integer value => (Double.ofInt? value).elim (.error .integerTooLarge) .ok

/-- An operation that is exact on integers and works on doubles otherwise. -/
def combine (exact : Int → Int → Int) (rounded : Double → Double → Double) :
    Number → Number → Except Fault Number
  | .integer left, .integer right => .ok (.integer (exact left right))
  | left, right => do
    let first ← left.toDouble
    let second ← right.toDouble
    return .double (rounded first second)

def add : Number → Number → Except Fault Number := combine (· + ·) Double.add

def subtract : Number → Number → Except Fault Number := combine (· - ·) Double.sub

def multiply : Number → Number → Except Fault Number := combine (· * ·) Double.mul

/-- The double nearest to the quotient of two integers; the divisor is not zero. -/
def integerQuotient (left right : Int) : Double :=
  Double.ofRatio (decide (left < 0) != decide (right < 0)) (left.natAbs * unitsPerOne) right.natAbs

/-- The quotient of two integers is an integer whenever the nearest double to it is one. -/
def ofQuotient : Double → Except Fault Number
  | .infinite _ => .error .quotientTooLarge
  | quotient =>
    match quotient.toInt? with
    | some whole => .ok (.integer whole)
    | none => .ok (.double quotient)

def divide : Number → Number → Except Fault Number
  | .integer left, .integer right =>
    if right = 0 then .error .zeroDivisor else ofQuotient (integerQuotient left right)
  | left, right => do
    let first ← left.toDouble
    let second ← right.toDouble
    if second.isZero then .error .zeroDivisor else return .double (first.div second)

/-- The floored remainder, moved by one divisor where its sign is not the dividend's. -/
def integerRemainder (left right : Int) : Int :=
  let floored := left.fmod right
  if floored ≠ 0 ∧ (floored < 0) ≠ (left < 0) then floored - right else floored

def doubleRemainder (left right : Double) : Double :=
  let floored := left.flooredRemainder right
  if !floored.isZero && floored.isNegative != left.isNegative then floored.sub right else floored

def remainder : Number → Number → Except Fault Number
  | .integer left, .integer right =>
    if right = 0 then .error .zeroDivisor else .ok (.integer (integerRemainder left right))
  | left, right => do
    let first ← left.toDouble
    let second ← right.toDouble
    if second.isZero then .error .zeroDivisor else return .double (doubleRemainder first second)

/-- Where a number stands in the order of all numbers: below, inside or above the finite ones, and
among those by its exact value in units. A number that is not a number stands nowhere. -/
def rank? : Number → Option (Int × Int)
  | .integer value => some (0, value * unitsPerOne)
  | .double .nan => none
  | .double (.infinite negative) => some (if negative then -1 else 1, 0)
  | .double (.finite negative units _) => some (0, Double.signed negative units)

def less (left right : Number) : Bool :=
  match left.rank?, right.rank? with
  | some first, some second =>
    first.1 < second.1 || (first.1 == second.1 && first.2 < second.2)
  | _, _ => false

def equal (left right : Number) : Bool :=
  match left.rank?, right.rank? with
  | some first, some second => first == second
  | _, _ => false

def isZero : Number → Bool
  | .integer value => value == 0
  | .double value => value.isZero

/-- Integers from here on have more than 4300 digits and are not written out. -/
def displayLimit : Nat := Nat.pow 10 4300

/-- The text a script prints, without a point when the number is whole; none for an integer of too
many digits. -/
def display? : Number → Option String
  | .integer value => if value.natAbs < displayLimit then some (toString value) else none
  | .double value =>
    match value.toInt? with
    | some whole => some (toString whole)
    | none => some (value.toText ⟨"NaN", "Infinity"⟩)

end Number
end ScriptKit
