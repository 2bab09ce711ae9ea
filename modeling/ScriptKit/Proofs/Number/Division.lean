import Mathlib.Data.Nat.Prime.Basic
import ScriptKit.Proofs.Number.Nearest

/-!
The division of integers. A quotient counts as an integer once it is rounded, and for operands of at
most 53 bits that is right: a quotient that is not whole is further from every whole number than half a
step of the grid it is rounded on. The bound is tight, as the proof shows: only a dividend of `2 ^ 53`
comes as near, and then the divisor is a power of two and divides it.
-/
namespace ScriptKit

private theorem unitsPerOne_eq :
    ∃ bits, 53 ≤ bits ∧ unitsPerOne = 2 ^ bits ∧ 2 ^ (bits + 1 + 53) < unitsLimit := by
  refine ⟨1074, by decide, Nat.pow_eq, ?_⟩
  unfold unitsLimit
  exact Nat.pow_lt_pow_right (by decide) (by decide)

private theorem mul_power_lt (bounded : left ≤ 2 ^ 53) : left * 2 ^ bits < 2 ^ (bits + 1 + 53) :=
  calc left * 2 ^ bits
      ≤ 2 ^ 53 * 2 ^ bits := Nat.mul_le_mul_right _ bounded
    _ = 2 ^ (bits + 53) := by rw [Nat.pow_add, Nat.mul_comm]
    _ < 2 ^ (bits + 1 + 53) := Nat.pow_lt_pow_right (by decide) (by omega)

section
variable {left right whole : Nat}

theorem Representable.of_whole (bounded : whole ≤ 2 ^ 53) : Representable (whole * unitsPerOne) := by
  obtain ⟨bits, _, unit, range⟩ := unitsPerOne_eq
  rw [unit]
  exact ⟨⟨whole, bits, bounded, rfl⟩, Nat.lt_trans (mul_power_lt bounded) range⟩

private theorem roundUnits_in_range (bounded : left ≤ 2 ^ 53) :
    roundUnits (left * unitsPerOne) right < unitsLimit := by
  obtain ⟨bits, _, unit, range⟩ := unitsPerOne_eq
  rw [unit]
  have small : left * 2 ^ bits / right < 2 ^ (bits + 1 + 53) :=
    Nat.lt_of_le_of_lt (Nat.div_le_self _ _) (mul_power_lt bounded)
  exact Nat.lt_of_le_of_lt (roundUnits_le_power small) range

/-- A whole quotient is found exactly. -/
theorem roundUnits_whole (positive : 0 < right) (bounded : whole ≤ 2 ^ 53) :
    roundUnits (whole * right * unitsPerOne) right = whole * unitsPerOne := by
  have nearest := (@roundUnits_nearest (whole * right * unitsPerOne) right positive
    (whole * unitsPerOne : Nat) (Representable.of_whole bounded)).1
  have zero : (whole * unitsPerOne : Nat) * right - (whole * right * unitsPerOne : Nat) = (0 : Int) := by
    push_cast
    ring
  rw [zero, abs_zero, abs_nonpos_iff, ← zero, sub_left_inj] at nearest
  exact_mod_cast mul_right_cancel₀ (by exact_mod_cast Nat.ne_of_gt positive) nearest

/-- If a quotient that is not whole were rounded to a whole number, the grid would be a coarse one. -/
theorem step_of_whole (positive : 0 < right) (rest : ¬ right ∣ left)
    (exact : roundUnits (left * unitsPerOne) right = whole * unitsPerOne) :
    2 * unitsPerOne ≤ right * 2 ^ droppedBits (left * unitsPerOne / right) := by
  have rounded : roundUnits (left * unitsPerOne) right = roundQuotient (left * unitsPerOne)
      (right * 2 ^ droppedBits (left * unitsPerOne / right)) *
        2 ^ droppedBits (left * unitsPerOne / right) := rfl
  generalize droppedBits (left * unitsPerOne / right) = shift at *
  have step : 0 < right * 2 ^ shift := Nat.mul_pos positive (Nat.two_pow_pos shift)
  obtain ⟨above, below, _⟩ := @roundQuotient_near (left * unitsPerOne) _ step
  have regroup : roundQuotient (left * unitsPerOne) (right * 2 ^ shift) * (right * 2 ^ shift) =
      whole * right * unitsPerOne := by
    rw [Nat.mul_left_comm, ← rounded, exact, Nat.mul_left_comm, Nat.mul_assoc]
  rw [regroup] at above below
  rcases Nat.lt_trichotomy left (whole * right) with less | same | more
  · have := Nat.mul_le_mul_right unitsPerOne less
    rw [Nat.succ_mul] at this
    omega
  · exact absurd ⟨whole, by rw [same, Nat.mul_comm]⟩ rest
  · have := Nat.mul_le_mul_right unitsPerOne more
    rw [Nat.succ_mul] at this
    omega

/-- A quotient that is not whole is not rounded to a whole number. -/
theorem not_dvd_roundUnits (positive : 0 < right) (bounded : left ≤ 2 ^ 53)
    (bounded' : right ≤ 2 ^ 53) (rest : ¬ right ∣ left) :
    ¬ unitsPerOne ∣ roundUnits (left * unitsPerOne) right := by
  rintro ⟨whole, exact⟩
  rw [Nat.mul_comm unitsPerOne] at exact
  have coarse := step_of_whole positive rest exact
  obtain ⟨bits, large, unit, _⟩ := unitsPerOne_eq
  have one := unitsPerOne_pos
  have unitLarge : 2 ^ 53 ≤ unitsPerOne := unit ▸ Nat.pow_le_pow_right (by decide) large
  rcases droppedBits_cases (left * unitsPerOne / right) with none | kept
  · rw [none] at coarse
    omega
  · have scaled := (Nat.le_div_iff_mul_le positive).mp kept
    generalize droppedBits (left * unitsPerOne / right) = shift at *
    have bound := Nat.mul_le_mul_right unitsPerOne bounded
    rw [Nat.pow_add, Nat.mul_comm (2 ^ shift), Nat.mul_assoc, Nat.mul_comm (2 ^ shift)] at scaled
    have step : right * 2 ^ shift = 2 * unitsPerOne := by omega
    have extreme : left = 2 ^ 53 := by
      refine Nat.le_antisymm bounded (Nat.le_of_mul_le_mul_right ?_ one)
      omega
    have power : right ∣ 2 ^ (bits + 1) :=
      ⟨2 ^ shift, by rw [step, unit, Nat.pow_succ, Nat.mul_comm]⟩
    obtain ⟨exponent, _, rfl⟩ := (Nat.dvd_prime_pow Nat.prime_two).mp power
    have small := (Nat.pow_le_pow_iff_right (by decide : 1 < 2)).mp bounded'
    exact rest (extreme ▸ Nat.pow_dvd_pow 2 small)

end

namespace Number

private theorem ofQuotient_finite (negative : Bool) (fits : Representable units) :
    ofQuotient (.finite negative units fits) =
      if unitsPerOne ∣ units then .ok (.integer (Double.signed negative (units / unitsPerOne)))
      else .ok (.double (.finite negative units fits)) := by
  simp only [ofQuotient, Double.toInt?, Nat.dvd_iff_mod_eq_zero]
  split <;> simp_all

section
variable {dividend divisor : Int}

/-- A quotient is an integer exactly if it is one once it is rounded. -/
theorem divide_eq (nonzero : divisor ≠ 0)
    (small : roundUnits (dividend.natAbs * unitsPerOne) divisor.natAbs < unitsLimit) :
    divide (.integer dividend) (.integer divisor) =
      if unitsPerOne ∣ roundUnits (dividend.natAbs * unitsPerOne) divisor.natAbs then
        .ok (.integer (Double.signed (decide (dividend < 0) != decide (divisor < 0))
          (roundUnits (dividend.natAbs * unitsPerOne) divisor.natAbs / unitsPerOne)))
      else .ok (.double (integerQuotient dividend divisor)) := by
  have rounded : integerQuotient dividend divisor = _ :=
    Double.ofRatio_eq rfl ⟨roundUnits_significand _ _, small⟩
  rw [divide, if_neg nonzero, rounded]
  exact ofQuotient_finite _ _

private theorem signed_natAbs (value : Int) :
    Double.signed (decide (value < 0)) value.natAbs = value := by
  unfold Double.signed
  split
  · have negative : value < 0 := by simpa using ‹decide (value < 0) = true›
    omega
  · have nonnegative : ¬ value < 0 := by simpa using ‹¬ decide (value < 0) = true›
    omega

private theorem signed_mul (first second : Bool) (left right : Nat) :
    Double.signed (first != second) left * Double.signed second right =
      Double.signed first (left * right) := by
  cases first <;> cases second <;> simp [Double.signed]

private theorem signed_mul_natCast (negative : Bool) (left right : Nat) :
    Double.signed negative left * right = Double.signed negative (left * right) := by
  cases negative <;> simp [Double.signed]

/-- The quotient of the magnitudes, with its sign, is the quotient. -/
theorem signed_mul_eq (same : dividend.natAbs = whole * divisor.natAbs) :
    Double.signed (decide (dividend < 0) != decide (divisor < 0)) whole * divisor = dividend := by
  have product := signed_mul (decide (dividend < 0)) (decide (divisor < 0)) whole divisor.natAbs
  rwa [signed_natAbs, ← same, signed_natAbs] at product

private theorem signed_div_eq (nonzero : divisor ≠ 0) (positive : 0 < unit) :
    (Double.signed (decide (dividend < 0) != decide (divisor < 0)) (dividend.natAbs * unit) : Rat) /
      (divisor.natAbs * unit) = dividend / divisor := by
  have product := signed_mul (decide (dividend < 0)) (decide (divisor < 0))
    (dividend.natAbs * unit) divisor.natAbs
  rw [signed_natAbs, Nat.mul_assoc, ← signed_mul_natCast (decide _), signed_natAbs] at product
  have magnitude : (divisor.natAbs : Rat) ≠ 0 := by
    exact_mod_cast Int.natAbs_ne_zero.mpr nonzero
  have unit' : (unit : Rat) ≠ 0 := by exact_mod_cast Nat.ne_of_gt positive
  have product' := congrArg (Int.cast : Int → Rat) product
  rw [Int.cast_mul, Int.cast_mul, Int.cast_natCast, Nat.cast_mul, mul_comm (unit : Rat)] at product'
  exact (div_eq_div_iff (mul_ne_zero magnitude unit') (by exact_mod_cast nonzero)).mpr product'

private theorem unitsPerOne_dvd {whole : Int}
    (same : (Double.signed negative units : Rat) / unitsPerOne = whole) : unitsPerOne ∣ units := by
  have one : (unitsPerOne : Rat) ≠ 0 := by exact_mod_cast Nat.ne_of_gt unitsPerOne_pos
  rw [div_eq_iff one] at same
  have same' : Double.signed negative units = whole * unitsPerOne := by exact_mod_cast same
  refine Int.natCast_dvd_natCast.mp ?_
  have multiple : (unitsPerOne : Int) ∣ Double.signed negative units := same' ▸ Int.dvd_mul_left _ _
  cases negative with
  | false => exact multiple
  | true => exact Int.dvd_neg.mp multiple

/-- Of two integers of at most 53 bits, the quotient is the exact one if there is one, and otherwise
the nearest double, which is not whole. -/
theorem divide_cases (nonzero : divisor ≠ 0) (bounded : dividend.natAbs ≤ 2 ^ 53)
    (bounded' : divisor.natAbs ≤ 2 ^ 53) :
    (divisor ∣ dividend ∧ ∃ whole, divisor * whole = dividend ∧
      divide (.integer dividend) (.integer divisor) = .ok (.integer whole)) ∨
    (¬ divisor ∣ dividend ∧ ∃ (double : Double) (value : Rat),
      double.Nearest (dividend / divisor) value ∧ (∀ whole : Int, value ≠ whole) ∧
      divide (.integer dividend) (.integer divisor) = .ok (.double double)) := by
  have positive : 0 < divisor.natAbs := Int.natAbs_pos.mpr nonzero
  have small := @roundUnits_in_range dividend.natAbs divisor.natAbs bounded
  have quotient := divide_eq nonzero small
  by_cases divides : divisor ∣ dividend
  · left
    refine ⟨divides, ?_⟩
    obtain ⟨whole, same⟩ := Int.natAbs_dvd_natAbs.mpr divides
    rw [Nat.mul_comm] at same
    have inside : whole ≤ 2 ^ 53 :=
      Nat.le_trans (Nat.le_mul_of_pos_right whole positive) (same ▸ bounded)
    have exact := roundUnits_whole positive inside
    rw [← same] at exact
    rw [exact, if_pos (Nat.dvd_mul_left _ _), Nat.mul_div_cancel _ unitsPerOne_pos] at quotient
    exact ⟨_, (Int.mul_comm _ _).trans (signed_mul_eq same), quotient⟩
  · right
    refine ⟨divides, ?_⟩
    have rest := not_dvd_roundUnits positive bounded bounded' (mt Int.natAbs_dvd_natAbs.mp divides)
    rw [if_neg rest] at quotient
    have nearest := Double.ofRatio_nearest positive
      (decide (dividend < 0) != decide (divisor < 0)) small
    rw [signed_div_eq nonzero unitsPerOne_pos] at nearest
    exact ⟨_, _, nearest, fun whole same => rest (unitsPerOne_dvd same), quotient⟩

end

end Number

/-- Evaluating a division whose operands are integers of at most 53 bits, the second of them not zero,
has an integer for its value exactly if the second divides the first, and then that is the exact
quotient; otherwise it has the nearest double, which is not whole. -/
theorem evaluate_divide {dividend divisor : Int}
    (first : Yields (evaluate file fuel (.expression left)) before
      (.ok (.number (.integer dividend))) middle)
    (second : Yields (evaluate file fuel (.expression right)) middle
      (.ok (.number (.integer divisor))) after)
    (nonzero : divisor ≠ 0) (bounded : dividend.natAbs ≤ 2 ^ 53)
    (bounded' : divisor.natAbs ≤ 2 ^ 53) :
    ∃ quotient, Yields (evaluate file (fuel + 1) (.expression (.binary span .divide left right)))
        before (.ok (.number quotient)) after ∧
      ((∃ whole, quotient = .integer whole) ↔ divisor ∣ dividend) ∧
      (∀ whole, quotient = .integer whole → divisor * whole = dividend) ∧
      (¬ divisor ∣ dividend → ∃ (double : Double) (value : Rat), quotient = .double double ∧
        double.Nearest (dividend / divisor) value ∧ ∀ whole : Int, value ≠ whole) := by
  have evaluated {quotient : Number}
      (divided : Number.divide (.integer dividend) (.integer divisor) = .ok quotient) :
      Yields (evaluate file (fuel + 1) (.expression (.binary span .divide left right)))
        before (.ok (.number quotient)) after := by
    refine first.bind (second.bind ?_)
    have applied : applyBinary file span .divide (.number (.integer dividend))
        (.number (.integer divisor)) = .ok (.number quotient) := by
      simp [applyBinary, applyArithmetic, arithmetic, divided, BinaryOperator.isOrder]
    rw [applied]
    exact .pure
  rcases Number.divide_cases nonzero bounded bounded' with
    ⟨divides, whole, exact, divided⟩ | ⟨rest, double, value, nearest, fraction, divided⟩
  · refine ⟨_, evaluated divided, ⟨fun _ => divides, fun _ => ⟨whole, rfl⟩⟩, ?_, ?_⟩
    · rintro _ ⟨⟩
      exact exact
    · intro rest
      exact absurd divides rest
  · refine ⟨_, evaluated divided, ⟨?_, fun divides => absurd divides rest⟩, ?_, ?_⟩
    · rintro ⟨_, impossible⟩
      cases impossible
    · intro _ impossible
      cases impossible
    · intro _
      exact ⟨double, value, rfl, nearest, fraction⟩

/-- The two largest operands, whose quotient is as near to one as one can be that is not whole. -/
theorem evaluate_divide_neighbours :
    (9007199254740991 : Int) ≠ 0 ∧ (9007199254740992 : Int).natAbs ≤ 2 ^ 53 ∧
    (9007199254740991 : Int).natAbs ≤ 2 ^ 53 ∧ ¬ (9007199254740991 : Int) ∣ 9007199254740992 ∧
    ∃ (double : Double) (value : Rat),
      Yields (evaluate none 2 (.expression (.binary default .divide
        (.literal default (.number (.integer 9007199254740992)))
        (.literal default (.number (.integer 9007199254740991)))))) Machine.initial
        (.ok (.number (.double double))) Machine.initial ∧
      double.Nearest ((9007199254740992 : Int) / (9007199254740991 : Int)) value ∧
      ∀ whole : Int, value ≠ whole := by
  have rest : ¬ (9007199254740991 : Int) ∣ 9007199254740992 := by decide
  obtain ⟨quotient, evaluated, _, _, inexact⟩ :=
    @evaluate_divide none 1 (.literal default (.number (.integer 9007199254740992)))
      Machine.initial Machine.initial (.literal default (.number (.integer 9007199254740991)))
      Machine.initial default 9007199254740992 9007199254740991
      .pure .pure (by decide) (by decide) (by decide)
  obtain ⟨double, value, rfl, nearest, fraction⟩ := inexact rest
  exact ⟨by decide, by decide, by decide, rest, double, value, evaluated, nearest, fraction⟩

end ScriptKit
