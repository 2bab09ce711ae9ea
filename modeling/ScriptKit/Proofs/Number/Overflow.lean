import Mathlib.Algebra.Group.Nat.Defs
import ScriptKit.Evaluation
import ScriptKit.Proofs.Yields

/-!
When arithmetic has no result. Apart from a zero divisor there is one reason: an operand is an integer
beyond the range of doubles.
-/
namespace ScriptKit

theorem roundUnits_le_power (small : numerator / denominator < 2 ^ (shift + 53)) :
    roundUnits numerator denominator ≤ 2 ^ (shift + 53) := by
  have dropped : droppedBits (numerator / denominator) ≤ shift := by
    rcases Nat.eq_zero_or_pos (numerator / denominator) with zero | positive
    · rw [zero]
      exact Nat.zero_le shift
    · have bits := (Nat.log2_lt (Nat.ne_of_gt positive)).mpr small
      unfold droppedBits
      omega
  calc roundUnits numerator denominator
      ≤ 2 ^ 53 * 2 ^ shift :=
        Nat.mul_le_mul (significand_le _ _) (Nat.pow_le_pow_right (by decide) dropped)
    _ = 2 ^ (shift + 53) := by rw [Nat.mul_comm, Nat.pow_add]

theorem le_significand (large : 2 ^ (lost + 52) ≤ numerator / denominator) :
    2 ^ 52 ≤ roundQuotient numerator (denominator * Nat.pow 2 lost) := by
  have quotient : 2 ^ 52 ≤ numerator / (denominator * Nat.pow 2 lost) := by
    rw [← Nat.div_div_eq_div_mul]
    refine (Nat.le_div_iff_mul_le (Nat.two_pow_pos lost)).mpr (Nat.le_trans ?_ large)
    exact Nat.le_of_eq (by rw [Nat.mul_comm, ← Nat.pow_add])
  unfold roundQuotient
  grind

theorem power_le_roundUnits (large : 2 ^ (shift + 53) ≤ numerator / denominator) :
    2 ^ (shift + 53) ≤ roundUnits numerator denominator := by
  unfold roundUnits
  have nonzero : numerator / denominator ≠ 0 :=
    Nat.ne_of_gt (Nat.lt_of_lt_of_le (Nat.two_pow_pos _) large)
  have bits : shift + 53 ≤ (numerator / denominator).log2 := (Nat.le_log2 nonzero).mpr large
  have dropped : (numerator / denominator).log2 = droppedBits (numerator / denominator) + 52 := by
    unfold droppedBits
    omega
  have whole := Nat.log2_self_le nonzero
  rw [dropped] at bits whole
  generalize droppedBits (numerator / denominator) = lost at bits whole ⊢
  calc 2 ^ (shift + 53)
      ≤ 2 ^ (lost + 52) := Nat.pow_le_pow_right (by decide) bits
    _ = 2 ^ 52 * 2 ^ lost := by rw [Nat.pow_add, Nat.mul_comm]
    _ ≤ _ := Nat.mul_le_mul_right _ (le_significand whole)

/-- If a quotient is large when rounded, so is its dividend. -/
theorem power_le_roundUnits_one (positive : 0 < denominator)
    (large : 2 ^ (shift + 54) ≤ roundUnits numerator denominator) :
    2 ^ (shift + 54) ≤ roundUnits numerator 1 := by
  rcases Nat.eq_or_lt_of_le positive with same | several
  · cases same
    exact large
  · have quotient : 2 ^ (shift + 53) ≤ numerator / denominator := by
      apply Nat.le_of_not_lt
      intro small
      have less : 2 ^ (shift + 53) < 2 ^ (shift + 54) := Nat.pow_lt_pow_right (by decide) (by omega)
      exact Nat.not_le_of_lt less (Nat.le_trans large (roundUnits_le_power small))
    refine @power_le_roundUnits (shift + 1) _ _ ?_
    rw [Nat.div_one]
    calc 2 ^ (shift + 54)
        = 2 ^ (shift + 53) * 2 := Nat.pow_succ 2 (shift + 53)
      _ ≤ 2 ^ (shift + 53) * denominator := Nat.mul_le_mul_left _ several
      _ ≤ numerator := (Nat.le_div_iff_mul_le positive).mp quotient

private theorem unitsLimit_eq : ∃ shift, unitsLimit = Nat.pow 2 (shift + 54) := ⟨2044, rfl⟩

theorem Double.ofRatio_infinite (infinite : ofRatio negative numerator denominator = .infinite other) :
    unitsLimit ≤ roundUnits numerator denominator := by
  unfold ofRatio at infinite
  split at infinite
  · cases infinite
  · rename_i large
    exact Nat.le_of_not_lt large

theorem Double.ofRatio_eq_infinite (negative : Bool)
    (large : unitsLimit ≤ roundUnits numerator denominator) :
    ofRatio negative numerator denominator = .infinite negative :=
  dif_neg (Nat.not_lt_of_le large)

/-- If the quotient of two integers is out of range, so is the dividend. -/
theorem Number.integerQuotient_infinite {left right : Int} (nonzero : right ≠ 0)
    (infinite : integerQuotient left right = .infinite negative) : Double.ofInt? left = none := by
  have large := Double.ofRatio_infinite infinite
  obtain ⟨shift, limit⟩ := unitsLimit_eq
  rw [limit] at large
  have dividend := power_le_roundUnits_one (Int.natAbs_pos.mpr nonzero) large
  rw [Double.ofInt?, Double.ofRatio_eq_infinite _ (Nat.le_trans (Nat.le_of_eq limit) dividend)]
  rfl

namespace Number

/-- An integer that no double is near to. -/
def TooLarge : Number → Prop
  | .integer value => Double.ofInt? value = none
  | .double _ => False

private theorem toDouble_eq_error {number : Number} (failed : number.toDouble = .error fault) :
    fault = .integerTooLarge ∧ number.TooLarge := by
  cases number with
  | double value => cases failed
  | integer value =>
    rw [toDouble] at failed
    cases near : Double.ofInt? value with
    | none =>
      rw [near] at failed
      cases failed
      exact ⟨rfl, near⟩
    | some rounded =>
      rw [near] at failed
      cases failed

section
variable {left right : Number}

/-- Two numbers as doubles: what fails is one of them, or what is done with the doubles. -/
theorem toDoubles_eq_error {rounded : Double → Double → Except Fault Number}
    (failed : (do
      let first ← left.toDouble
      let second ← right.toDouble
      rounded first second) = .error fault) :
    (fault = .integerTooLarge ∧ (left.TooLarge ∨ right.TooLarge)) ∨
      ∃ first second, rounded first second = .error fault := by
  cases first : left.toDouble with
  | error other =>
    rw [first] at failed
    cases failed
    obtain ⟨same, large⟩ := toDouble_eq_error first
    exact .inl ⟨same, .inl large⟩
  | ok first' =>
    cases second : right.toDouble with
    | error other =>
      rw [first, second] at failed
      cases failed
      obtain ⟨same, large⟩ := toDouble_eq_error second
      exact .inl ⟨same, .inr large⟩
    | ok second' =>
      rw [first, second] at failed
      exact .inr ⟨first', second', failed⟩

private theorem combine_eq_error (failed : combine exact rounded left right = .error fault) :
    fault = .integerTooLarge ∧ (left.TooLarge ∨ right.TooLarge) := by
  unfold combine at failed
  split at failed
  · cases failed
  · exact (toDoubles_eq_error failed).resolve_right fun ⟨_, _, done⟩ => nomatch done

private theorem ofQuotient_eq_error (failed : ofQuotient quotient = .error fault) :
    ∃ negative, quotient = .infinite negative := by
  unfold ofQuotient at failed
  split at failed
  · exact ⟨_, rfl⟩
  · split at failed <;> cases failed

private theorem divide_eq_error (failed : divide left right = .error fault) :
    fault = .zeroDivisor ∨ left.TooLarge ∨ right.TooLarge := by
  unfold divide at failed
  split at failed
  · rename_i dividend divisor
    split at failed
    · cases failed
      exact .inl rfl
    · rename_i nonzero
      obtain ⟨negative, infinite⟩ := ofQuotient_eq_error failed
      exact .inr (.inl (integerQuotient_infinite nonzero infinite))
  · rcases toDoubles_eq_error failed with ⟨_, large⟩ | ⟨_, second, done⟩
    · exact .inr large
    · split at done
      · cases done
        exact .inl rfl
      · cases done

private theorem remainder_eq_error (failed : remainder left right = .error fault) :
    fault = .zeroDivisor ∨ left.TooLarge ∨ right.TooLarge := by
  unfold remainder at failed
  split at failed
  · split at failed
    · cases failed
      exact .inl rfl
    · cases failed
  · rcases toDoubles_eq_error failed with ⟨_, large⟩ | ⟨_, second, done⟩
    · exact .inr large
    · split at done
      · cases done
        exact .inl rfl
      · cases done

end

end Number

/-- The operators that do arithmetic. -/
def BinaryOperator.arithmetical : List BinaryOperator := [.plus, .minus, .times, .divide, .modulo]

theorem arithmetic_eq_error {left right : Number}
    (failed : arithmetic operator left right = some (.error fault)) :
    operator ∈ BinaryOperator.arithmetical ∧
      (fault = .zeroDivisor ∨ left.TooLarge ∨ right.TooLarge) := by
  cases operator with
  | plus => exact ⟨by decide, .inr (Number.combine_eq_error (Option.some.inj failed)).2⟩
  | minus => exact ⟨by decide, .inr (Number.combine_eq_error (Option.some.inj failed)).2⟩
  | times => exact ⟨by decide, .inr (Number.combine_eq_error (Option.some.inj failed)).2⟩
  | divide => exact ⟨by decide, Number.divide_eq_error (Option.some.inj failed)⟩
  | modulo => exact ⟨by decide, Number.remainder_eq_error (Option.some.inj failed)⟩
  | _ => cases failed

end ScriptKit
