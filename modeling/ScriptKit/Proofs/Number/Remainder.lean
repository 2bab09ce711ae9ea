import ScriptKit.Proofs.Evaluation.Comparison

/-!
The remainder of integers. It is first taken with the sign of the divisor, and then moved by one divisor
where that is not the sign of the dividend. What comes out is the remainder of the division that
truncates, which is the only number that is smaller than the divisor, a multiple of it away from the
dividend, and not on the other side of zero.
-/
namespace ScriptKit

namespace Number

/-- What is left of a dividend when its nearest multiple of the divisor towards zero is taken away. -/
structure Rest (dividend divisor rest : Int) : Prop where
  small : rest.natAbs < divisor.natAbs
  multiple : divisor ∣ dividend - rest
  side : rest = 0 ∨ rest.sign = dividend.sign

section
variable {dividend divisor rest other : Int}

private theorem side_iff : (rest = 0 ∨ rest.sign = dividend.sign) ↔
    (0 < rest → 0 < dividend) ∧ (rest < 0 → dividend < 0) := by
  rcases Int.lt_trichotomy rest 0 with negative | rfl | positive
  · rw [Int.sign_eq_neg_one_of_neg negative, @eq_comm _ (-1), Int.sign_eq_neg_one_iff_neg]
    omega
  · simp
  · rw [Int.sign_eq_one_of_pos positive, @eq_comm _ 1, Int.sign_eq_one_iff_pos]
    omega

/-- Two remainders on one side of zero differ by less than the divisor. -/
theorem Rest.unique (one : Rest dividend divisor rest) (two : Rest dividend divisor other) :
    rest = other := by
  have multiple : divisor ∣ rest - other := by
    have difference := Int.dvd_sub two.multiple one.multiple
    rwa [sub_sub_sub_cancel_left] at difference
  have near : (rest - other).natAbs < divisor.natAbs := by
    have small := one.small
    have small' := two.small
    have side := side_iff.mp one.side
    have side' := side_iff.mp two.side
    omega
  exact Int.sub_eq_zero.mp (Int.eq_zero_of_dvd_of_natAbs_lt_natAbs multiple near)

private theorem tmod_rest (dividend : Int) (nonzero : divisor ≠ 0) :
    Rest dividend divisor (dividend.tmod divisor) := by
  refine ⟨?_, Int.dvd_self_sub_tmod, side_iff.mpr ⟨?_, ?_⟩⟩
  · rw [Int.natAbs_tmod]
    exact Nat.mod_lt _ (Int.natAbs_pos.mpr nonzero)
  · intro positive
    apply Int.lt_of_not_ge
    intro opposite
    have nonnegative := Int.tmod_nonneg divisor (Int.neg_nonneg_of_nonpos opposite)
    rw [Int.neg_tmod] at nonnegative
    omega
  · intro negative
    apply Int.lt_of_not_ge
    intro opposite
    exact absurd (Int.tmod_nonneg divisor opposite) (Int.not_le.mpr negative)

/-- The remainder of the division that floors lies between zero and the divisor. -/
theorem fmod_range (dividend : Int) (nonzero : divisor ≠ 0) :
    (0 ≤ dividend.fmod divisor ∧ dividend.fmod divisor < divisor) ∨
      (divisor < dividend.fmod divisor ∧ dividend.fmod divisor ≤ 0) := by
  rcases Int.lt_or_gt_of_ne nonzero with negative | positive
  · have opposite : 0 < -divisor := Int.neg_pos_of_neg negative
    have lower := Int.fmod_nonneg_of_pos (-dividend) opposite
    have upper := Int.fmod_lt_of_pos (-dividend) opposite
    rw [Int.neg_fmod_neg] at lower upper
    exact .inr ⟨Int.neg_lt_neg_iff.mp upper, Int.neg_nonneg.mp lower⟩
  · exact .inl ⟨Int.fmod_nonneg_of_pos dividend positive, Int.fmod_lt_of_pos dividend positive⟩

/-- Where the signs differ, one divisor leads from the one side of zero to the other. -/
theorem integerRemainder_rest (dividend : Int) (nonzero : divisor ≠ 0) :
    Rest dividend divisor (integerRemainder dividend divisor) := by
  have range := fmod_range dividend nonzero
  have multiple : divisor ∣ dividend - dividend.fmod divisor := Int.dvd_self_sub_fmod
  have zero : dividend = 0 → dividend.fmod divisor = 0 := by
    rintro rfl
    exact Int.zero_fmod divisor
  unfold integerRemainder
  generalize dividend.fmod divisor = floored at *
  simp only [ne_eq, eq_iff_iff]
  split
  · refine ⟨by omega, ?_, side_iff.mpr (by omega)⟩
    have further := Int.dvd_add multiple (Int.dvd_refl divisor)
    rwa [sub_add] at further
  · exact ⟨by omega, multiple, side_iff.mpr (by omega)⟩

private theorem integerRemainder_eq_tmod (nonzero : divisor ≠ 0) :
    integerRemainder dividend divisor = dividend.tmod divisor :=
  (integerRemainder_rest dividend nonzero).unique (tmod_rest dividend nonzero)

end

end Number

namespace Value

/-- Evaluating the remainder of two integers has the third one for its value. -/
def Leaves (dividend divisor rest : Int) : Prop :=
  Gives .modulo (.number (.integer dividend)) (.number (.integer divisor))
    fun _ _ => .ok (.number (.integer rest))

private theorem leaves_tmod (dividend : Int) (nonzero : divisor ≠ 0) :
    Leaves dividend divisor (dividend.tmod divisor) := by
  refine gives_iff.mpr fun file span => ?_
  simp [applyBinary, applyArithmetic, arithmetic, Number.remainder, BinaryOperator.isOrder, nonzero,
    Number.integerRemainder_eq_tmod nonzero]

private theorem gives_zeroDivisor (dividend : Int) :
    Gives .modulo (.number (.integer dividend)) (.number (.integer 0))
      fun file span => .error (.located file span (.divisionByZero "%")) := by
  refine gives_iff.mpr fun file span => ?_
  simp [applyBinary, applyArithmetic, arithmetic, Number.remainder, BinaryOperator.isOrder,
    BinaryOperator.text]

/-- The remainder of integers truncates: it is the only number that is smaller than the divisor, a
multiple of the divisor away from the dividend and not on the other side of zero. It does not depend
on the sign of the divisor, and it changes its own sign with the dividend. With the divisor zero the
evaluation fails. -/
theorem modulo_truncates :
    (∀ dividend divisor : Int, divisor ≠ 0 → ∃ rest, Leaves dividend divisor rest ∧
      (∀ other, Number.Rest dividend divisor other ↔ other = rest) ∧
      rest = dividend - divisor * dividend.tdiv divisor ∧
      Leaves dividend (-divisor) rest ∧ Leaves (-dividend) divisor (-rest)) ∧
    ∀ dividend : Int, Gives .modulo (.number (.integer dividend)) (.number (.integer 0))
      fun file span => .error (.located file span (.divisionByZero "%")) := by
  refine ⟨?_, gives_zeroDivisor⟩
  intro dividend divisor nonzero
  have left := Number.tmod_rest dividend nonzero
  refine ⟨dividend.tmod divisor, leaves_tmod dividend nonzero, ?_, Int.tmod_def dividend divisor,
    ?_, ?_⟩
  · intro other
    constructor
    · intro another
      exact another.unique left
    · rintro rfl
      exact left
  · rw [← Int.tmod_neg]
    exact leaves_tmod dividend (Int.neg_ne_zero.mpr nonzero)
  · rw [← Int.neg_tmod]
    exact leaves_tmod (-dividend) nonzero

/-- Two integers beyond machine words that are both negative. -/
theorem modulo_truncates_negative :
    (-4294967296 : Int) ≠ 0 ∧ Leaves (-18446744073709551621) (-4294967296) (-5) ∧
    Leaves (-18446744073709551621) 4294967296 (-5) ∧
    Leaves 18446744073709551621 (-4294967296) 5 := by
  obtain ⟨rest, leaves, _, same, opposite, negated⟩ :=
    modulo_truncates.1 (-18446744073709551621) (-4294967296) (by decide)
  obtain rfl : rest = -5 := same.trans (by decide)
  exact ⟨by decide, leaves, opposite, negated⟩

end Value
end ScriptKit
