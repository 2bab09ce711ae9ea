import Mathlib.Algebra.Order.Field.Basic
import Mathlib.Algebra.Order.Field.Rat
import Mathlib.Algebra.Order.Ring.Abs
import Mathlib.Tactic.FieldSimp
import Mathlib.Tactic.Ring
import ScriptKit.Proofs.Number.Overflow
import ScriptKit.Proofs.Number.Reading

/-!
Rounding finds the nearest double. Of a quotient of units, the rounded significand is the nearest whole
number of steps of the grid that the quotient is on, and the magnitudes off the grid are all below it,
on the far side of one that is on it. Where two doubles are equally near, the one found has an even
significand.
-/
namespace ScriptKit

/-- The significand of a magnitude is even: the one of 53 bits, or of fewer where the units themselves
are counted. -/
def EvenSignificand (units : Nat) : Prop :=
  ∃ significand shift, units = significand * 2 ^ shift ∧ significand % 2 = 0 ∧
    significand < 2 ^ 53 ∧ (2 ^ 52 ≤ significand ∨ shift = 0)

namespace Double

/-- The number that a finite double is. -/
def value? : Double → Option Rat
  | .finite negative units _ => some ((signed negative units : Rat) / unitsPerOne)
  | _ => none

def IsEven : Double → Prop
  | .finite _ units _ => EvenSignificand units
  | _ => False

/-- The double is a number that no other double is nearer to; if there is another one as near, this is
the one with the even significand. -/
structure Nearest (target : Rat) (double : Double) (value : Rat) : Prop where
  finite : double.value? = some value
  least : ∀ other value', value? other = some value' → |value - target| ≤ |value' - target|
  tie : ∀ other value', value? other = some value' → value' ≠ value →
    |value' - target| = |value - target| → double.IsEven

end Double

section
variable {numerator denominator : Nat}

theorem roundQuotient_near (positive : 0 < denominator) :
    2 * (roundQuotient numerator denominator * denominator) ≤ 2 * numerator + denominator ∧
    2 * numerator ≤ 2 * (roundQuotient numerator denominator * denominator) + denominator ∧
    (roundQuotient numerator denominator % 2 = 0 ∨
      (2 * (roundQuotient numerator denominator * denominator) < 2 * numerator + denominator ∧
        2 * numerator < 2 * (roundQuotient numerator denominator * denominator) + denominator)) := by
  have division := Nat.div_add_mod numerator denominator
  have remainder := Nat.mod_lt numerator positive
  unfold roundQuotient
  generalize numerator / denominator = quotient at division ⊢
  generalize numerator % denominator = rest at division remainder ⊢
  rw [Nat.mul_comm] at division
  dsimp only
  split
  · omega
  · split
    · rcases Nat.mod_two_eq_zero_or_one quotient with even | odd
      · rw [even, Nat.add_zero]
        omega
      · rw [odd, Nat.add_mul]
        omega
    · rw [Nat.add_mul]
      omega

/-- Of all multiples of a step, the one with the rounded quotient is the nearest. -/
theorem nearest_multiple (positive : 0 < denominator) (other : Int) :
    |(roundQuotient numerator denominator * denominator : Int) - numerator| ≤
        |other * denominator - numerator| ∧
      (other ≠ roundQuotient numerator denominator →
        |other * denominator - numerator| =
          |(roundQuotient numerator denominator * denominator : Int) - numerator| →
        roundQuotient numerator denominator % 2 = 0) := by
  obtain ⟨above, below, even⟩ := @roundQuotient_near numerator denominator positive
  generalize roundQuotient numerator denominator = found at *
  have apart : other = found ∨ other * denominator + denominator ≤ found * denominator ∨
      (found * denominator + denominator : Int) ≤ other * denominator := by
    rcases Int.lt_trichotomy other found with less | same | more
    · have scaled := Int.mul_le_mul_of_nonneg_right less (Int.natCast_nonneg denominator)
      rw [Int.add_mul, Int.one_mul] at scaled
      exact .inr (.inl scaled)
    · exact .inl same
    · have scaled := Int.mul_le_mul_of_nonneg_right more (Int.natCast_nonneg denominator)
      rw [Int.add_mul, Int.one_mul] at scaled
      exact .inr (.inr scaled)
  rcases apart with rfl | apart
  · exact ⟨le_refl _, fun different => absurd rfl different⟩
  · have distance := abs_cases ((found * denominator : Int) - numerator)
    have distance' := abs_cases (other * denominator - numerator)
    omega

theorem droppedBits_cases (magnitude : Nat) :
    droppedBits magnitude = 0 ∨ 2 ^ (droppedBits magnitude + 52) ≤ magnitude := by
  rcases Nat.eq_zero_or_pos (droppedBits magnitude) with none | some
  · exact .inl none
  · have bits : droppedBits magnitude + 52 = magnitude.log2 := by
      unfold droppedBits at *
      omega
    have nonzero : magnitude ≠ 0 := by
      rintro rfl
      cases bits
    exact .inr (bits ▸ Nat.log2_self_le nonzero)

/-- A rounded magnitude with an even number of steps has an even significand. -/
theorem evenSignificand_roundUnits
    (even : roundQuotient numerator
      (denominator * 2 ^ droppedBits (numerator / denominator)) % 2 = 0) :
    EvenSignificand (roundUnits numerator denominator) := by
  have bounded := significand_le numerator denominator
  have large : droppedBits (numerator / denominator) = 0 ∨ 2 ^ 52 ≤ roundQuotient numerator
      (denominator * 2 ^ droppedBits (numerator / denominator)) :=
    (droppedBits_cases (numerator / denominator)).imp_right le_significand
  unfold roundUnits
  simp only [Nat.pow_eq] at *
  generalize droppedBits (numerator / denominator) = shift at *
  generalize roundQuotient numerator (denominator * 2 ^ shift) = significand at *
  rcases Nat.lt_or_eq_of_le bounded with less | rfl
  · exact ⟨significand, shift, rfl, even, less, large.symm⟩
  · refine ⟨2 ^ 52, shift + 1, ?_, by decide, by decide, .inl (Nat.le_refl _)⟩
    rw [Nat.pow_succ 2 shift]
    omega

/-- A magnitude that loses bits on a grid is below the least one that has 53 of them there. -/
theorem Representable.lt_power {units : Int} (fits : Representable units.natAbs)
    (off : ¬ (2 ^ shift : Int) ∣ units) : units < 2 ^ (shift + 52) := by
  rcases fits.dvd_or_le shift with dvd | le
  · have dvd' := Int.natCast_dvd.mpr dvd
    rw [Int.natCast_pow] at dvd'
    exact absurd dvd' off
  · have different : units ≠ 2 ^ (shift + 52) := by
      rintro rfl
      exact off (pow_dvd_pow 2 (Nat.le_add_right shift 52))
    have half : units.natAbs ≤ 2 ^ (shift + 52) :=
      Nat.le_of_mul_le_mul_right (Nat.le_trans le (Nat.le_of_eq (Nat.pow_succ 2 (shift + 52))))
        (by decide : 0 < 2)
    have half' : (units.natAbs : Int) ≤ 2 ^ (shift + 52) := by exact_mod_cast half
    omega

/-- Of all magnitudes of doubles with a sign, the rounded one is the nearest to a quotient of units. -/
theorem roundUnits_nearest (positive : 0 < denominator) {units : Int}
    (fits : Representable units.natAbs) :
    |(roundUnits numerator denominator * denominator : Int) - numerator| ≤
        |units * denominator - numerator| ∧
      (units ≠ roundUnits numerator denominator →
        |units * denominator - numerator| =
          |(roundUnits numerator denominator * denominator : Int) - numerator| →
        EvenSignificand (roundUnits numerator denominator)) := by
  have even := @evenSignificand_roundUnits numerator denominator
  have large := droppedBits_cases (numerator / denominator)
  have rounded : roundUnits numerator denominator = roundQuotient numerator
      (denominator * 2 ^ droppedBits (numerator / denominator)) *
        2 ^ droppedBits (numerator / denominator) := rfl
  generalize droppedBits (numerator / denominator) = shift at *
  have step : 0 < denominator * 2 ^ shift := Nat.mul_pos positive (Nat.two_pow_pos shift)
  have multiple := @nearest_multiple numerator _ step
  generalize roundQuotient numerator (denominator * 2 ^ shift) = found at *
  have scaled (other : Int) :
      other * (denominator * 2 ^ shift : Nat) = 2 ^ shift * other * denominator := by
    push_cast
    ring
  have whole : (roundUnits numerator denominator : Int) = 2 ^ shift * found := by
    rw [rounded, Int.natCast_mul, Int.mul_comm]
    rfl
  simp only [scaled, ← whole] at multiple
  by_cases onGrid : (2 ^ shift : Int) ∣ units
  · obtain ⟨other, rfl⟩ := onGrid
    refine ⟨(multiple other).1, fun different same => even ((multiple other).2 ?_ same)⟩
    rintro rfl
    exact different whole.symm
  · -- Between a magnitude off the grid and the quotient there is one on the grid.
    have between : units < 2 ^ shift * 2 ^ 52 ∧
        (2 ^ shift * 2 ^ 52 * denominator : Int) ≤ numerator := by
      have nonzero : shift ≠ 0 := by
        rintro rfl
        exact onGrid (Int.one_dvd units)
      have least := (Nat.le_div_iff_mul_le positive).mp (large.resolve_left nonzero)
      rw [← Int.pow_add]
      exact ⟨fits.lt_power onGrid, by exact_mod_cast least⟩
    have strict : |(roundUnits numerator denominator * denominator : Int) - numerator| <
        |units * denominator - numerator| := by
      have nearer := Int.mul_lt_mul_of_pos_right between.1 (Int.natCast_pos.mpr positive)
      have distance := abs_of_nonpos (Int.sub_nonpos_of_le between.2)
      have bound := (multiple (2 ^ 52)).1
      have distance' := neg_abs_le (units * denominator - numerator)
      omega
    exact ⟨le_of_lt strict, fun _ same => absurd same (ne_of_gt strict)⟩

namespace Double

private theorem value?_eq_some (finite : value? double = some value) :
    ∃ units : Int, Representable units.natAbs ∧ value = (units : Rat) / unitsPerOne := by
  cases double with
  | nan => cases finite
  | infinite negative => cases finite
  | finite negative units fits =>
    cases finite
    refine ⟨signed negative units, ?_, rfl⟩
    unfold signed
    split
    · rwa [Int.natAbs_neg, Int.natAbs_natCast]
    · exact fits

private theorem roundUnits_signed_nearest (positive : 0 < denominator) (negative : Bool)
    {units : Int}
    (fits : Representable units.natAbs) :
    |signed negative (roundUnits numerator denominator) * denominator - signed negative numerator| ≤
        |units * denominator - signed negative numerator| ∧
      (units ≠ signed negative (roundUnits numerator denominator) →
        |units * denominator - signed negative numerator| =
          |signed negative (roundUnits numerator denominator) * denominator -
            signed negative numerator| →
        EvenSignificand (roundUnits numerator denominator)) := by
  cases negative with
  | false => exact roundUnits_nearest positive fits
  | true =>
    have mirrored (other : Int) :
        |-other * denominator - numerator| = |other * denominator - signed true numerator| := by
      rw [← abs_neg]
      refine congrArg _ ?_
      simp only [signed, if_true]
      ring
    rw [← Int.natAbs_neg] at fits
    have nearest := @roundUnits_nearest numerator denominator positive _ fits
    have center := mirrored (-roundUnits numerator denominator)
    rw [Int.neg_neg] at center
    rw [mirrored, center] at nearest
    exact ⟨nearest.1, fun different same =>
      nearest.2 (fun opposite => different (neg_eq_iff_eq_neg.mp opposite)) same⟩

/-- How far a number of units is from a quotient of units. -/
theorem abs_units_sub (positive : 0 < denominator) (units numerator : Int) :
    |(units : Rat) / unitsPerOne - numerator / (denominator * unitsPerOne)| =
      (|units * denominator - numerator| : Int) / (denominator * unitsPerOne : Rat) := by
  have one := unitsPerOne_pos
  generalize unitsPerOne = unit at one ⊢
  have positive' : (0 : Rat) < denominator := by exact_mod_cast positive
  have one' : (0 : Rat) < unit := by exact_mod_cast one
  have difference : (units : Rat) / unit - numerator / (denominator * unit) =
      (units * denominator - numerator) / (denominator * unit) := by
    field_simp
  rw [difference, abs_div, abs_of_pos (mul_pos positive' one')]
  push_cast
  rfl

/-- A quotient of units in the range of doubles rounds to the double nearest to it. -/
theorem ofRatio_nearest (positive : 0 < denominator) (negative : Bool)
    (small : roundUnits numerator denominator < unitsLimit) :
    Nearest (signed negative numerator / (denominator * unitsPerOne))
      (ofRatio negative numerator denominator)
      (signed negative (roundUnits numerator denominator) / unitsPerOne) := by
  have rounded := @ofRatio_eq numerator denominator _ negative rfl
    ⟨roundUnits_significand numerator denominator, small⟩
  have scale : (0 : Rat) < denominator * unitsPerOne :=
    mul_pos (by exact_mod_cast positive) (by exact_mod_cast unitsPerOne_pos)
  constructor
  · rw [rounded]
    rfl
  · intro other value finite
    obtain ⟨units, fits, rfl⟩ := value?_eq_some finite
    rw [abs_units_sub positive, abs_units_sub positive, div_le_div_iff_of_pos_right scale]
    exact_mod_cast (roundUnits_signed_nearest positive negative fits).1
  · intro other value finite different same
    rw [rounded]
    change EvenSignificand (roundUnits numerator denominator)
    obtain ⟨units, fits, rfl⟩ := value?_eq_some finite
    rw [abs_units_sub positive, abs_units_sub positive, div_left_inj' (ne_of_gt scale)] at same
    have apart : units ≠ signed negative (roundUnits numerator denominator) := by
      rintro rfl
      exact different rfl
    exact (roundUnits_signed_nearest positive negative fits).2 apart (by exact_mod_cast same)

end Double

end

end ScriptKit
