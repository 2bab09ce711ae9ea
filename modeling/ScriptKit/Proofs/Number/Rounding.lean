import Mathlib.Algebra.Group.Nat.Defs
import ScriptKit.Number.Decimal

/-!
Seventeen digits name a double: a quotient that differs from the magnitude of a double by less than
one part in two to the 54 rounds to it, and of two neighbours on a decimal grid of seventeen digits the
nearer one is such a quotient. So the shortest decimal of a magnitude always reads back.
-/
namespace ScriptKit

private theorem roundQuotient_eq
    (above : 2 * numerator < 2 * (quotient * denominator) + denominator)
    (below : 2 * (quotient * denominator) < 2 * numerator + denominator) :
    roundQuotient numerator denominator = quotient := by
  have division := Nat.div_add_mod numerator denominator
  have remainder := Nat.mod_lt numerator (by omega : denominator > 0)
  unfold roundQuotient
  generalize numerator / denominator = found at division ⊢
  generalize numerator % denominator = rest at division remainder ⊢
  rcases Nat.lt_trichotomy found quotient with less | rfl | more
  · obtain ⟨extra, rfl⟩ := Nat.exists_eq_add_of_lt less
    have none : extra = 0 := by
      rcases Nat.eq_zero_or_pos extra with zero | positive
      · exact zero
      · have := Nat.mul_le_mul_right denominator positive
        simp only [Nat.add_mul, Nat.mul_comm denominator] at *
        omega
    subst none
    simp only [Nat.add_mul, Nat.mul_comm denominator] at *
    grind
  · simp only [Nat.mul_comm denominator] at *
    grind
  · obtain ⟨extra, rfl⟩ := Nat.exists_eq_add_of_lt more
    simp only [Nat.add_mul, Nat.mul_comm denominator] at *
    omega

private theorem add_le_of_dvd_lt {divisor small large : Nat} (first : divisor ∣ small)
    (second : divisor ∣ large) (less : small < large) : small + divisor ≤ large := by
  obtain ⟨left, rfl⟩ := first
  obtain ⟨right, rfl⟩ := second
  have := Nat.mul_le_mul_left divisor (Nat.lt_of_mul_lt_mul_left less)
  rwa [Nat.mul_succ] at this

namespace Representable
variable {units : Nat}

theorem dvd_or_le (fits : Representable units) (shift : Nat) :
    2 ^ shift ∣ units ∨ units * 2 ≤ 2 ^ (shift + 53) := by
  obtain ⟨⟨significand, exponent, bounded, rfl⟩, _⟩ := fits
  rcases Nat.lt_or_ge exponent shift with less | enough
  · right
    calc significand * Nat.pow 2 exponent * 2
        ≤ 2 ^ 53 * 2 ^ exponent * 2 := Nat.mul_le_mul_right 2 (Nat.mul_le_mul_right _ bounded)
      _ = 2 ^ (exponent + 1 + 53) := by
        rw [Nat.pow_add 2 (exponent + 1) 53, Nat.pow_succ]
        omega
      _ ≤ 2 ^ (shift + 53) := Nat.pow_le_pow_right (by decide) (by omega)
  · left
    exact Nat.dvd_mul_left_of_dvd (Nat.pow_dvd_pow 2 enough) significand

/-- Below a power of two, the next magnitude is some way off. -/
theorem add_le_power (fits : Representable units) (below : units < 2 ^ (shift + 53)) :
    units + 2 ^ shift ≤ 2 ^ (shift + 53) := by
  rcases fits.dvd_or_le shift with dvd | le
  · exact add_le_of_dvd_lt dvd (Nat.pow_dvd_pow 2 (by omega)) below
  · rw [Nat.pow_add] at *
    omega

/-- Above a power of two, the next magnitude is twice as far off. -/
theorem power_add_le (fits : Representable units) (above : 2 ^ (shift + 53) < units) :
    2 ^ (shift + 53) + 2 ^ (shift + 1) ≤ units := by
  rcases fits.dvd_or_le (shift + 1) with dvd | le
  · exact add_le_of_dvd_lt (Nat.pow_dvd_pow 2 (by omega)) dvd above
  · rw [Nat.pow_add 2 (shift + 1), Nat.pow_succ] at le
    rw [Nat.pow_add] at above
    omega

private theorem dvd_of_power_le (fits : Representable units) (large : 2 ^ (shift + 52) ≤ units) :
    2 ^ shift ∣ units := by
  rcases fits.dvd_or_le shift with dvd | le
  · exact dvd
  · have same : units = 2 ^ (shift + 52) := by
      rw [Nat.pow_add] at *
      omega
    rw [same]
    exact Nat.pow_dvd_pow 2 (by omega)

end Representable

/-- The quotient differs from the magnitude by less than one part in `2 ^ 54`. -/
structure Near (units numerator denominator : Nat) : Prop where
  above : numerator * 2 ^ 54 < units * denominator * (2 ^ 54 + 1)
  below : units * denominator * (2 ^ 54 - 1) < numerator * 2 ^ 54

namespace Near
variable {units numerator denominator : Nat}

theorem units_le (near : Near units numerator denominator) (fits : Representable units)
    (small : numerator / denominator < 2 ^ (shift + 53)) (positive : 0 < denominator) :
    units ≤ 2 ^ (shift + 53) := by
  apply Nat.le_of_not_lt
  intro large
  have apart := fits.power_add_le large
  have numeratorLt := (Nat.div_lt_iff_lt_mul positive).mp small
  have scaled : units * (2 ^ 54 - 1) * denominator < 2 ^ (shift + 53) * 2 ^ 54 * denominator := by
    rw [Nat.mul_right_comm, Nat.mul_right_comm _ _ denominator]
    exact Nat.lt_of_lt_of_le near.below (Nat.mul_le_mul_right _ (Nat.le_of_lt numeratorLt))
  have := Nat.lt_of_mul_lt_mul_right scaled
  rw [Nat.pow_succ, Nat.pow_add] at *
  omega

theorem power_le (near : Near units numerator denominator) (fits : Representable units)
    (large : 2 ^ (shift + 53) ≤ numerator / denominator) (positive : 0 < denominator) :
    2 ^ (shift + 53) ≤ units := by
  apply Nat.le_of_not_lt
  intro small
  have apart := fits.add_le_power small
  have numeratorLe := (Nat.le_div_iff_mul_le positive).mp large
  have scaled : 2 ^ (shift + 53) * 2 ^ 54 * denominator < units * (2 ^ 54 + 1) * denominator := by
    rw [Nat.mul_right_comm, Nat.mul_right_comm _ _ denominator]
    exact Nat.lt_of_le_of_lt (Nat.mul_le_mul_right _ numeratorLe) near.above
  have := Nat.lt_of_mul_lt_mul_right scaled
  rw [Nat.pow_add] at *
  omega

/-- A quotient near a magnitude rounds to it. -/
theorem roundUnits_eq (near : Near units numerator denominator) (fits : Representable units)
    (positive : 0 < denominator) : roundUnits numerator denominator = units := by
  unfold roundUnits
  have dropped : ∃ shift, droppedBits (numerator / denominator) = shift ∧
      numerator / denominator < 2 ^ (shift + 53) ∧ 2 ^ shift ∣ units := by
    refine ⟨_, rfl, ?_, ?_⟩
    · refine Nat.lt_of_lt_of_le Nat.lt_log2_self (Nat.pow_le_pow_right (by decide) ?_)
      unfold droppedBits
      omega
    · cases same : droppedBits (numerator / denominator) with
      | zero => exact Nat.one_dvd units
      | succ shift =>
        have bits : (numerator / denominator).log2 = shift + 53 := by
          unfold droppedBits at same
          omega
        have nonzero : numerator / denominator ≠ 0 := by
          intro zero
          rw [zero] at bits
          cases bits
        have large := Nat.log2_self_le nonzero
        rw [bits] at large
        exact fits.dvd_of_power_le (near.power_le fits large positive)
  obtain ⟨shift, same, small, ⟨significand, rfl⟩⟩ := dropped
  have bounded := Nat.mul_le_mul_right denominator (near.units_le fits small positive)
  have above := near.above
  have below := near.below
  rw [same]
  have rounded : roundQuotient numerator (denominator * 2 ^ shift) = significand := by
    rw [Nat.pow_add] at bounded
    have regroup : significand * (denominator * 2 ^ shift) = 2 ^ shift * significand * denominator := by
      rw [← Nat.mul_assoc, Nat.mul_comm, Nat.mul_assoc]
    have regroup' : 2 ^ shift * 2 ^ 53 * denominator = 2 ^ 53 * (denominator * 2 ^ shift) := by
      rw [Nat.mul_comm (2 ^ shift), Nat.mul_assoc, Nat.mul_comm (2 ^ shift)]
    apply roundQuotient_eq
    · omega
    · omega
  exact (congrArg (· * 2 ^ shift) rounded).trans (Nat.mul_comm _ _)

end Near

theorem unitsPerOne_pos : 0 < unitsPerOne := by
  unfold unitsPerOne
  apply Nat.pow_pos
  decide

private theorem roundQuotient_cases (numerator denominator : Nat) :
    roundQuotient numerator denominator = numerator / denominator ∨
      roundQuotient numerator denominator = numerator / denominator + 1 := by
  unfold roundQuotient
  grind

namespace Decimal
variable {units value step point : Nat} {place : Int}

/-- The decimals at a place are the points of its grid, as quotients of units. -/
theorem ratio_grid (grid : gridRatio units place = (value, step)) (point : Nat) :
    0 < step ∧ (ratio ⟨point, place⟩).1 = point * step ∧
      units * (ratio ⟨point, place⟩).2 = value ∧ 0 < (ratio ⟨point, place⟩).2 := by
  have positive := unitsPerOne_pos
  cases place with
  | ofNat place =>
    simp only [gridRatio, ratio, Prod.mk.injEq] at grid ⊢
    obtain ⟨rfl, rfl⟩ := grid
    generalize unitsPerOne = one at positive ⊢
    refine ⟨Nat.mul_pos positive (Nat.pow_pos (by decide)), ?_, Nat.mul_one units, Nat.one_pos⟩
    rw [Nat.mul_assoc, Nat.mul_comm one]
  | negSucc place =>
    simp only [gridRatio, ratio, Prod.mk.injEq] at grid ⊢
    obtain ⟨rfl, rfl⟩ := grid
    exact ⟨positive, rfl, rfl, Nat.pow_pos (by decide)⟩

/-- A decimal within half a step of a grid of seventeen digits reads back. -/
theorem readsBack_of_near (grid : gridRatio units place = (value, step))
    (fits : Representable units) (fine : 10 ^ 16 * step ≤ value)
    (above : 2 * (point * step) ≤ 2 * value + step)
    (below : 2 * value ≤ 2 * (point * step) + step) :
    readsBack units ⟨point, place⟩ = true := by
  obtain ⟨positive, numerator, denominator, nonzero⟩ := ratio_grid grid point
  have near : Near units (ratio ⟨point, place⟩).1 (ratio ⟨point, place⟩).2 := by
    constructor <;>
    · rw [numerator, denominator]
      omega
  exact beq_iff_eq.mpr (near.roundUnits_eq fits nonzero)

/-- A decimal is found on a grid of seventeen digits. -/
theorem atPlace?_ne_none (grid : gridRatio units place = (value, step))
    (fits : Representable units) (fine : 10 ^ 16 * step ≤ value) :
    atPlace? units place ≠ none := by
  obtain ⟨positive, _⟩ := ratio_grid grid 0
  have division := Nat.div_add_mod value step
  have remainder := Nat.mod_lt value positive
  rw [Nat.mul_comm] at division
  have either : readsBack units ⟨value / step, place⟩ = true ∨
      readsBack units ⟨value / step + 1, place⟩ = true := by
    rcases Nat.le_total (2 * (value % step)) step with lower | upper
    · exact .inl (readsBack_of_near grid fits fine (by omega) (by omega))
    · refine .inr (readsBack_of_near grid fits fine ?_ ?_) <;>
      · rw [Nat.add_mul]
        omega
  unfold atPlace?
  rw [grid]
  grind

private theorem readsBack_atPlace? (found : atPlace? units place = some decimal) :
    readsBack units decimal = true := by
  cases grid : gridRatio units place with
  | mk value step =>
    have rounded := roundQuotient_cases value step
    unfold atPlace? at found
    rw [grid] at found
    grind

theorem power_digitCount_le (positive : 0 < value) : 10 ^ (digitCount value - 1) ≤ value := by
  rcases Nat.eq_zero_or_pos (digitCount value - 1) with single | several
  · rw [single]
    exact positive
  · apply Nat.le_of_not_lt
    intro less
    have := (Nat.length_toDigits_le_iff (by decide) several).mpr less
    unfold digitCount at *
    omega

private theorem firstPlace_bound (positive : 0 < units) :
    10 ^ (digitCount (units * Nat.pow 10 400 / unitsPerOne) - 1) * unitsPerOne ≤
      units * Nat.pow 10 400 := by
  have small : unitsPerOne ≤ Nat.pow 10 400 := by decide +kernel
  have one := unitsPerOne_pos
  generalize Nat.pow 10 400 = scale at small ⊢
  generalize unitsPerOne = unit at small one ⊢
  have scaled : 0 < units * scale / unit := by
    refine Nat.div_pos ?_ one
    exact Nat.le_trans small (Nat.le_mul_of_pos_left scale positive)
  exact (Nat.le_div_iff_mul_le one).mp (power_digitCount_le scaled)

/-- A grid is fine enough if its step is sixteen places below a power of ten that the magnitude
reaches. -/
theorem gridRatio_fine {count scale : Nat} (some : 0 < count)
    (bound : 10 ^ (count - 1) * unitsPerOne ≤ units * Nat.pow 10 scale)
    (grid : gridRatio units ((count : Int) - (scale + 1) - 16) = (value, step)) :
    10 ^ 16 * step ≤ value := by
  have positive : 0 < 10 ^ scale := Nat.pow_pos (by decide)
  refine Nat.le_of_mul_le_mul_right ?_ positive
  rcases Nat.lt_or_ge count (scale + 17) with low | high
  · obtain ⟨places, sum⟩ : ∃ places, scale + 16 = count + places :=
      Nat.exists_eq_add_of_le (by omega)
    have place : (count : Int) - (scale + 1) - 16 = Int.negSucc places := by omega
    rw [place] at grid
    obtain ⟨rfl, rfl⟩ := Prod.mk.inj grid
    have power : 10 ^ 16 * 10 ^ scale = 10 ^ (count - 1) * 10 ^ (places + 1) := by
      rw [← Nat.pow_add, ← Nat.pow_add]
      congr 1
      omega
    calc 10 ^ 16 * unitsPerOne * 10 ^ scale
        = 10 ^ (count - 1) * unitsPerOne * 10 ^ (places + 1) := by
          rw [Nat.mul_right_comm, power, Nat.mul_right_comm]
      _ ≤ units * 10 ^ scale * 10 ^ (places + 1) := Nat.mul_le_mul_right _ bound
      _ = units * 10 ^ (places + 1) * 10 ^ scale := Nat.mul_right_comm _ _ _
  · obtain ⟨places, rfl⟩ := Nat.exists_eq_add_of_le high
    have place : ((scale + 17 + places : Nat) : Int) - (scale + 1) - 16 = (places : Nat) := by omega
    rw [place] at grid
    obtain ⟨rfl, rfl⟩ := Prod.mk.inj grid
    have power : 10 ^ (scale + 17 + places - 1) = 10 ^ 16 * 10 ^ places * 10 ^ scale := by
      rw [← Nat.pow_add, ← Nat.pow_add]
      congr 1
      omega
    calc 10 ^ 16 * (unitsPerOne * 10 ^ places) * 10 ^ scale
        = 10 ^ (scale + 17 + places - 1) * unitsPerOne := by
          rw [power, Nat.mul_comm unitsPerOne, ← Nat.mul_assoc, Nat.mul_right_comm]
      _ ≤ units * 10 ^ scale := bound

/-- The shortest decimal of a magnitude reads back. -/
theorem readsBack_shortest (fits : Representable units) (positive : 0 < units) :
    readsBack units (shortest units) = true := by
  unfold shortest
  have found : (List.range 17).findSome? (fun (extra : Nat) =>
      atPlace? units (firstPlace units - extra)) ≠ none := by
    intro missing
    have last := List.findSome?_eq_none_iff.mp missing 16 (by decide)
    cases grid : gridRatio units (firstPlace units - 16) with
    | mk value step =>
      have fine := gridRatio_fine Nat.length_toDigits_pos (firstPlace_bound positive) grid
      exact atPlace?_ne_none grid fits fine last
  obtain ⟨decimal, some⟩ := Option.ne_none_iff_exists'.mp found
  obtain ⟨extra, _, reads⟩ := List.exists_of_findSome?_eq_some some
  simp only [some, Option.getD_some]
  exact readsBack_atPlace? reads

end Decimal
end ScriptKit
