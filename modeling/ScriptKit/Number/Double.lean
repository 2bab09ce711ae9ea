/-!
Double-precision numbers as exact quantities. Every finite double is a whole multiple of the
smallest positive one, so a magnitude is a natural number of such units. Arithmetic is exact on
units and rounds once at the end, to the nearest double, ties to the even significand.
-/
namespace ScriptKit

/-- How many units make the number one. -/
def unitsPerOne : Nat := Nat.pow 2 1074

/-- Magnitudes from here on are beyond the range of doubles. -/
def unitsLimit : Nat := Nat.pow 2 2098

theorem unitsLimit_pos : 0 < unitsLimit := by
  unfold unitsLimit
  apply Nat.pow_pos
  decide

/-- The nearest whole number to a quotient, a tie going to the even one. -/
def roundQuotient (numerator denominator : Nat) : Nat :=
  let quotient := numerator / denominator
  let remainder := numerator % denominator
  if 2 * remainder < denominator then quotient
  else if 2 * remainder = denominator then quotient + quotient % 2
  else quotient + 1

/-- How many low bits a magnitude loses when only 53 significant ones are kept. -/
def droppedBits (magnitude : Nat) : Nat := magnitude.log2 - 52

/-- The nearest magnitude of at most 53 significant bits, with no upper limit. -/
def roundUnits (numerator denominator : Nat) : Nat :=
  let dropped := droppedBits (numerator / denominator)
  roundQuotient numerator (denominator * Nat.pow 2 dropped) * Nat.pow 2 dropped

/-- The magnitudes that doubles have: at most 53 significant bits, and in range. -/
def Representable (units : Nat) : Prop :=
  (∃ significand shift, significand ≤ Nat.pow 2 53 ∧ units = significand * Nat.pow 2 shift) ∧
    units < unitsLimit

theorem roundQuotient_le (numerator denominator : Nat) :
    roundQuotient numerator denominator ≤ numerator / denominator + 1 := by
  unfold roundQuotient
  grind

theorem div_droppedBits_lt (magnitude : Nat) :
    magnitude / Nat.pow 2 (droppedBits magnitude) < Nat.pow 2 53 := by
  refine (Nat.div_lt_iff_lt_mul (Nat.two_pow_pos _)).mpr ?_
  refine Nat.lt_of_lt_of_eq ?_ (Nat.pow_add 2 53 (droppedBits magnitude))
  refine Nat.lt_of_lt_of_le Nat.lt_log2_self ?_
  exact Nat.pow_le_pow_right (by decide) (by unfold droppedBits; omega)

theorem significand_le (numerator denominator : Nat) :
    roundQuotient numerator (denominator * Nat.pow 2 (droppedBits (numerator / denominator))) ≤
      Nat.pow 2 53 := by
  refine Nat.le_trans (roundQuotient_le _ _) ?_
  rw [← Nat.div_div_eq_div_mul]
  exact div_droppedBits_lt _

theorem roundUnits_significand (numerator denominator : Nat) :
    ∃ significand shift, significand ≤ Nat.pow 2 53 ∧
      roundUnits numerator denominator = significand * Nat.pow 2 shift :=
  ⟨_, _, significand_le numerator denominator, rfl⟩

inductive Double where
  | nan
  | infinite (negative : Bool)
  | finite (negative : Bool) (units : Nat) (fits : Representable units)
deriving DecidableEq

namespace Double

/-- The double nearest to a quotient of units; one beyond the range is infinite. -/
def ofRatio (negative : Bool) (numerator denominator : Nat) : Double :=
  if small : roundUnits numerator denominator < unitsLimit then
    .finite negative (roundUnits numerator denominator)
      ⟨roundUnits_significand numerator denominator, small⟩
  else .infinite negative

def zero (negative : Bool) : Double :=
  .finite negative 0 ⟨⟨0, 0, by decide, by decide⟩, unitsLimit_pos⟩

/-- A magnitude of units together with its sign. -/
def signed (negative : Bool) (units : Nat) : Int :=
  if negative then -(units : Int) else units

def bounded? : Double → Option Double
  | .infinite _ => none
  | value => some value

/-- The double nearest to an integer, or none when that is out of range. -/
def ofInt? (value : Int) : Option Double :=
  (ofRatio (value < 0) (value.natAbs * unitsPerOne) 1).bounded?

def isZero : Double → Bool
  | .finite _ units _ => units == 0
  | _ => false

def isNegative : Double → Bool
  | .nan => false
  | .infinite negative => negative
  | .finite negative units _ => negative && units != 0

/-- The integer a double equals, if it equals one. -/
def toInt? : Double → Option Int
  | .finite negative units _ =>
    if units % unitsPerOne = 0 then some (signed negative (units / unitsPerOne)) else none
  | _ => none

def negate : Double → Double
  | .nan => .nan
  | .infinite negative => .infinite (!negative)
  | .finite negative units fits => .finite (!negative) units fits

/-- An exact sum of zero is negative only when both terms are. -/
def add : Double → Double → Double
  | .nan, _ => .nan
  | _, .nan => .nan
  | .infinite left, .infinite right => if left = right then .infinite left else .nan
  | .infinite left, .finite .. => .infinite left
  | .finite .., .infinite right => .infinite right
  | .finite left leftUnits _, .finite right rightUnits _ =>
    let sum := signed left leftUnits + signed right rightUnits
    if sum = 0 then zero (left && right) else ofRatio (sum < 0) sum.natAbs 1

def sub (left right : Double) : Double := add left (negate right)

def mul : Double → Double → Double
  | .nan, _ => .nan
  | _, .nan => .nan
  | .infinite left, .infinite right => .infinite (left != right)
  | .infinite left, .finite right units _ => if units = 0 then .nan else .infinite (left != right)
  | .finite left units _, .infinite right => if units = 0 then .nan else .infinite (left != right)
  | .finite left leftUnits _, .finite right rightUnits _ =>
    ofRatio (left != right) (leftUnits * rightUnits) unitsPerOne

/-- The quotient by a divisor that is not zero. -/
def div : Double → Double → Double
  | .nan, _ => .nan
  | _, .nan => .nan
  | .infinite _, .infinite _ => .nan
  | .infinite left, .finite right _ _ => .infinite (left != right)
  | .finite left _ _, .infinite right => zero (left != right)
  | .finite left leftUnits _, .finite right rightUnits _ =>
    ofRatio (left != right) (leftUnits * unitsPerOne) rightUnits

/-- The exact remainder of the division that truncates, for a divisor that is not zero. -/
def truncatedRemainder : Double → Double → Double
  | .nan, _ => .nan
  | _, .nan => .nan
  | .infinite _, _ => .nan
  | left, .infinite _ => left
  | .finite left leftUnits _, .finite _ rightUnits _ => ofRatio left (leftUnits % rightUnits) 1

/-- The remainder that has the divisor's sign, also when it is zero: the truncated one, moved by one
divisor where the signs differ. -/
def flooredRemainder (left right : Double) : Double :=
  let remainder := truncatedRemainder left right
  if remainder.isZero then
    match right with
    | .finite negative _ _ => zero negative
    | .infinite negative => zero negative
    | .nan => .nan
  else if right.isNegative != remainder.isNegative then add remainder right
  else remainder

end Double
end ScriptKit
