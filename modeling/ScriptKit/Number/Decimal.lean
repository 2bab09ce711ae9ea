import ScriptKit.Number.Double

/-!
Decimal texts of doubles. A double is written with the fewest digits that read back as it, the
nearest such decimal, an exact tie going to the even last digit.
-/
namespace ScriptKit

/-- The number `digits * 10 ^ exponent`. -/
structure Decimal where
  digits : Nat
  exponent : Int
deriving DecidableEq

namespace Decimal

/-- The value in units of the smallest double, as a quotient. -/
def ratio (decimal : Decimal) : Nat × Nat :=
  match decimal.exponent with
  | .ofNat places => (decimal.digits * Nat.pow 10 places * unitsPerOne, 1)
  | .negSucc places => (decimal.digits * unitsPerOne, Nat.pow 10 (places + 1))

def digitCount (value : Nat) : Nat := (Nat.toDigits 10 value).length

/-- The nearest double. Exponents far outside the range are settled by the place of the first digit,
so the exact power of ten is never built for them. -/
def toDouble (negative : Bool) (decimal : Decimal) : Double :=
  let place := decimal.exponent + digitCount decimal.digits
  if decimal.digits = 0 ∨ place < -400 then .zero negative
  else if 400 < place then .infinite negative
  else Double.ofRatio negative decimal.ratio.1 decimal.ratio.2

def readsBack (units : Nat) (decimal : Decimal) : Bool :=
  roundUnits decimal.ratio.1 decimal.ratio.2 == units

/-- A magnitude of units over `10 ^ place`, as a quotient. -/
def gridRatio (units : Nat) : Int → Nat × Nat
  | .ofNat place => (units, unitsPerOne * Nat.pow 10 place)
  | .negSucc place => (units * Nat.pow 10 (place + 1), unitsPerOne)

/-- The nearest decimal that reads back among those whose last digit is at `place`. -/
def atPlace? (units : Nat) (place : Int) : Option Decimal :=
  let ratio := gridRatio units place
  let below := ratio.1 / ratio.2
  let lower := readsBack units ⟨below, place⟩
  let upper := readsBack units ⟨below + 1, place⟩
  if lower && upper then some ⟨roundQuotient ratio.1 ratio.2, place⟩
  else if lower then some ⟨below, place⟩
  else if upper then some ⟨below + 1, place⟩
  else none

/-- The place of the first significant digit of a positive magnitude. -/
def firstPlace (units : Nat) : Int :=
  digitCount (units * Nat.pow 10 400 / unitsPerOne) - 401

/-- The shortest decimal of a positive magnitude; seventeen digits always suffice. -/
def shortest (units : Nat) : Decimal :=
  let first := firstPlace units
  let last := first - 16
  let found := (List.range 17).findSome? fun (extra : Nat) => atPlace? units (first - extra)
  found.getD ⟨roundQuotient (gridRatio units last).1 (gridRatio units last).2, last⟩

end Decimal

def natOfDigits (digits : List Char) : Nat :=
  digits.foldl (fun value digit => value * 10 + (digit.toNat - '0'.toNat)) 0

def zeros (count : Nat) : List Char := List.replicate count '0'

/-- An exponent has a sign and at least two digits. -/
def exponentText (exponent : Int) : List Char :=
  let digits := Nat.toDigits 10 exponent.natAbs
  let sign := if exponent < 0 then '-' else '+'
  'e' :: sign :: (zeros (2 - digits.length) ++ digits)

/-- Digits with the point after the first `point` of them: positional while the first digit stands
between the fourth decimal and the sixteenth whole place, with an exponent otherwise. -/
def placedText (digits : List Char) (point : Int) : List Char :=
  if -4 < point ∧ point ≤ 16 then
    if point ≤ 0 then '0' :: '.' :: (zeros (-point).toNat ++ digits)
    else
      let whole := digits.take point.toNat
      let fraction := digits.drop point.toNat
      whole ++ zeros (point.toNat - digits.length) ++ '.' ::
        (if fraction.isEmpty then ['0'] else fraction)
  else
    match digits with
    | first :: rest =>
      first :: (if rest.isEmpty then [] else '.' :: rest) ++ exponentText (point - 1)
    | [] => []

/-- The text of a magnitude of units. -/
def magnitudeText (units : Nat) : List Char :=
  if units = 0 then ['0', '.', '0']
  else
    let decimal := Decimal.shortest units
    let digits := Nat.toDigits 10 decimal.digits
    let significant := (digits.reverse.dropWhile (· == '0')).reverse
    placedText significant (digits.length + decimal.exponent)

/-- How the values that are no finite numbers are spelled. -/
structure Spelling where
  notANumber : String
  infinity : String

namespace Double

def toText (spelling : Spelling) : Double → String
  | .nan => spelling.notANumber
  | .infinite negative => (if negative then "-" else "") ++ spelling.infinity
  | .finite negative units _ =>
    String.ofList ((if negative then ['-'] else []) ++ magnitudeText units)

/-- A magnitude written with digits, perhaps a point and perhaps an exponent. -/
def magnitudeOfText? (text : List Char) : Option Decimal :=
  let whole := text.takeWhile Char.isDigit
  let afterWhole := text.dropWhile Char.isDigit
  let afterPoint := if afterWhole.head? = some '.' then afterWhole.drop 1 else []
  let fraction := afterPoint.takeWhile Char.isDigit
  let tail := if afterWhole.head? = some '.' then afterPoint.dropWhile Char.isDigit else afterWhole
  let digits := whole ++ fraction
  let decimal (exponent : Int) : Option Decimal :=
    some ⟨natOfDigits digits, exponent - fraction.length⟩
  if digits.isEmpty then none
  else
    match tail with
    | [] => decimal 0
    | mark :: '-' :: exponent =>
      if mark.toLower = 'e' ∧ !exponent.isEmpty ∧ exponent.all Char.isDigit then
        decimal (-(natOfDigits exponent : Int))
      else none
    | mark :: '+' :: exponent =>
      if mark.toLower = 'e' ∧ !exponent.isEmpty ∧ exponent.all Char.isDigit then
        decimal (natOfDigits exponent)
      else none
    | mark :: exponent =>
      if mark.toLower = 'e' ∧ !exponent.isEmpty ∧ exponent.all Char.isDigit then
        decimal (natOfDigits exponent)
      else none

/-- The double a text names, with its sign; case does not matter. -/
def ofText? (text : String) : Option Double :=
  let chars := text.toList.map Char.toLower
  let negative := chars.head? = some '-'
  let magnitude := if negative ∨ chars.head? = some '+' then chars.drop 1 else chars
  let word := String.ofList magnitude
  if word = "nan" then some .nan
  else if word = "inf" ∨ word = "infinity" then some (.infinite negative)
  else (magnitudeOfText? magnitude).map (Decimal.toDouble negative)

end Double
end ScriptKit
