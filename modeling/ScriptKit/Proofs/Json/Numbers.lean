import ScriptKit.Json.Reader
import ScriptKit.Proofs.Number.Overflow
import ScriptKit.Proofs.Number.Reading

/-!
Numbers in JSON documents read back. An integer is the number its digits name; the digits and the
exponent of a double round to that double, and nothing beyond the range of doubles is written.
-/
namespace ScriptKit

private theorem two_pow_le_ten_pow (count : Nat) : 2 ^ (3 * count) ≤ 10 ^ count := by
  rw [Nat.pow_mul]
  exact Nat.pow_le_pow_left (by decide) count

private theorem roundUnits_eq_zero (small : 2 * numerator < denominator) :
    roundUnits numerator denominator = 0 := by
  have none : numerator / denominator = 0 := Nat.div_eq_of_lt (by omega)
  have rounded : roundQuotient numerator denominator = 0 := by
    unfold roundQuotient
    dsimp only
    rw [Nat.mod_eq_of_lt (by omega), if_pos small, none]
  unfold roundUnits
  dsimp only
  rw [none]
  change roundQuotient numerator (denominator * 1) * 1 = 0
  rw [Nat.mul_one, Nat.mul_one, rounded]

namespace Significant

variable {units : Nat} {digits : List Char} {point : Int}

/-- No double is written with a first digit so high. -/
theorem point_le (significant : Significant units digits point) (fits : Representable units) :
    point ≤ 400 := by
  apply Decidable.byContradiction
  intro beyond
  have rounded := significant.rounded
  have length := List.length_pos_iff.mpr significant.nonempty
  rw [Decimal.ratio_eq] at rounded
  generalize shift : point - digits.length = place at rounded
  have power : 10 ^ (digits.length - 1) * 10 ^ place.toNat =
      10 ^ (point - 1).toNat * 10 ^ (-place).toNat := by
    rw [← Nat.pow_add, ← Nat.pow_add]
    congr 1
    omega
  have large : 10 ^ (point - 1).toNat * unitsPerOne ≤
      natOfDigits digits * 10 ^ place.toNat * unitsPerOne / 10 ^ (-place).toNat := by
    refine (Nat.le_div_iff_mul_le (Nat.pow_pos (by decide))).mpr ?_
    rw [Nat.mul_right_comm, ← power]
    exact Nat.mul_le_mul_right _ (Nat.mul_le_mul_right _ significant.large)
  have limit : 2 ^ (2045 + 53) ≤ 10 ^ (point - 1).toNat * unitsPerOne :=
    calc 2 ^ (2045 + 53)
        ≤ 2 ^ (3 * (point - 1).toNat + 1074) := Nat.pow_le_pow_right (by decide) (by omega)
      _ = 2 ^ (3 * (point - 1).toNat) * unitsPerOne := Nat.pow_add 2 _ 1074
      _ ≤ 10 ^ (point - 1).toNat * unitsPerOne := Nat.mul_le_mul_right _ (two_pow_le_ten_pow _)
  have bounded := power_le_roundUnits (Nat.le_trans limit large)
  rw [rounded] at bounded
  exact absurd fits.2 (Nat.not_lt.mpr bounded)

/-- No double but zero is written with a first digit so low. -/
theorem le_point (significant : Significant units digits point) (nonzero : units ≠ 0) :
    -400 ≤ point := by
  apply Decidable.byContradiction
  intro below
  apply nonzero
  rw [← significant.rounded, Decimal.ratio_eq]
  have bound := natOfDigits_lt significant.all
  apply roundUnits_eq_zero
  have exponent : (point - digits.length).toNat = 0 := by omega
  have places : (-(point - digits.length)).toNat = digits.length + (-point).toNat := by omega
  rw [exponent, Nat.pow_zero, Nat.mul_one, places, Nat.pow_add]
  have unit : 2 * unitsPerOne ≤ 10 ^ (-point).toNat := by
    refine Nat.le_trans ?_ (two_pow_le_ten_pow _)
    obtain ⟨more, enough⟩ : ∃ more, 3 * (-point).toNat = 1 + (1074 + more) :=
      ⟨3 * (-point).toNat - 1075, by omega⟩
    rw [enough, Nat.pow_add, Nat.pow_one, Nat.pow_add]
    exact Nat.mul_le_mul_left 2 (Nat.le_mul_of_pos_right unitsPerOne (Nat.two_pow_pos more))
  calc 2 * (natOfDigits digits * unitsPerOne)
      = natOfDigits digits * (2 * unitsPerOne) := Nat.mul_left_comm ..
    _ < 10 ^ digits.length * (2 * unitsPerOne) := by
      refine Nat.mul_lt_mul_of_pos_right bound (Nat.mul_pos (by decide) unitsPerOne_pos)
    _ ≤ 10 ^ digits.length * 10 ^ (-point).toNat := Nat.mul_le_mul_left _ unit

theorem toDouble_eq (significant : Significant units digits point) (fits : Representable units)
    (nonzero : units ≠ 0) (negative : Bool) :
    Decimal.toDouble negative ⟨natOfDigits digits, point - digits.length⟩ =
      .finite negative units fits := by
  have count : Decimal.digitCount (natOfDigits digits) = digits.length :=
    Nat.le_antisymm (digitCount_le significant.nonempty significant.all)
      (Decimal.le_digitCount significant.large)
  have positive : 0 < natOfDigits digits :=
    Nat.lt_of_lt_of_le (Nat.pow_pos (by decide)) significant.large
  have low := significant.le_point nonzero
  have high := significant.point_le fits
  unfold Decimal.toDouble
  dsimp only
  rw [count, if_neg (by omega), if_neg (by omega)]
  exact Double.ofRatio_eq significant.rounded fits

end Significant

theorem Decimal.toDouble_signed {fits : Representable units}
    (read : toDouble false decimal = .finite false units fits) (negative : Bool) :
    toDouble negative decimal = .finite negative units fits := by
  unfold toDouble at read ⊢
  dsimp only at read ⊢
  split at read
  · rename_i none
    rw [if_pos none]
    cases read
    rfl
  · rename_i some
    rw [if_neg some]
    split at read
    · cases read
    · rename_i within
      rw [if_neg within]
      unfold Double.ofRatio at read ⊢
      split at read
      · rename_i small
        rw [dif_pos small]
        cases read
        rfl
      · cases read

private theorem head_ne_zero {digits : List Char} (all : ∀ char ∈ digits, char.isDigit = true)
    (large : 10 ^ (digits.length - 1) ≤ natOfDigits digits) : digits.head? ≠ some '0' := by
  intro zero
  obtain ⟨rest, rfl⟩ := List.head?_eq_some_iff.mp zero
  have small := natOfDigits_lt fun char member => all char (List.mem_cons_of_mem '0' member)
  rw [← List.singleton_append, natOfDigits_append, natOfDigits_zero, Nat.zero_mul,
    Nat.zero_add] at large
  simp at large
  omega

/-- Digits that start with zero only if they are zero. -/
structure WholePart (whole : List Char) : Prop where
  nonempty : whole ≠ []
  all : ∀ char ∈ whole, char.isDigit = true
  leading : whole.head? = some '0' → whole = ['0']

theorem WholePart.toDigits (value : Nat) : WholePart (Nat.toDigits 10 value) where
  nonempty := Nat.toDigits_ne_nil
  all _ := Nat.isDigit_of_mem_toDigits (by decide) (by decide)
  leading zero := by
    rcases Nat.eq_zero_or_pos value with rfl | positive
    · rfl
    · refine absurd zero (head_ne_zero (fun _ => Nat.isDigit_of_mem_toDigits (by decide) (by decide)) ?_)
      rw [natOfDigits_toDigits]
      exact Decimal.power_digitCount_le positive

section
variable {units : Nat} {digits whole fraction : List Char} {point : Int}

private theorem dot_not_mem (all : ∀ char ∈ digits, char.isDigit = true) : '.' ∉ digits :=
  fun member => absurd (all '.' member) (by decide)

/-- Digits with a point in them have a whole part and a fraction. -/
theorem Significant.parts (significant : Significant units digits point)
    (inside : -4 < point ∧ point ≤ 16) (all : ∀ char ∈ whole, char.isDigit = true)
    (shape : placedText digits point = whole ++ '.' :: fraction) :
    WholePart whole ∧ fraction ≠ [] := by
  obtain ⟨first, others, rfl⟩ := List.exists_cons_of_ne_nil significant.nonempty
  unfold placedText at shape
  rw [if_pos inside] at shape
  split at shape
  · have zero : '0' :: '.' :: (zeros (-point).toNat ++ first :: others) =
        ['0'] ++ '.' :: (zeros (-point).toNat ++ first :: others) := rfl
    obtain ⟨rfl, rfl⟩ := append_cons_inj (by decide) (dot_not_mem all) (zero.symm.trans shape)
    exact ⟨⟨by decide, all, fun _ => rfl⟩, by simp⟩
  · rename_i positive
    obtain ⟨places, some⟩ : ∃ places, point.toNat = places + 1 := ⟨point.toNat - 1, by omega⟩
    have front : ∀ char ∈ (first :: others).take point.toNat ++
        zeros (point.toNat - (first :: others).length), char.isDigit = true := by
      refine List.forall_mem_append.mpr ⟨?_, zeros_digits _⟩
      exact fun char member => significant.all char (List.mem_of_mem_take member)
    obtain ⟨rfl, rfl⟩ := append_cons_inj (dot_not_mem front) (dot_not_mem all) shape
    refine ⟨⟨by simp [some], all, ?_⟩, ?_⟩
    · intro zero
      rw [some, List.take_succ_cons] at zero
      exact absurd (show (first :: others).head? = _ from zero)
        (head_ne_zero significant.all significant.large)
    · split
      · decide
      · rename_i nonempty
        exact fun empty => nonempty (by rw [empty]; rfl)

end

namespace Json

/-- What comes after a value: nothing, a comma or the end of the line. -/
def Ended (rest : List Char) : Prop := ∀ char ∈ rest.head?, char = ',' ∨ char = '\n'

/-- No digit comes next. -/
def Undigited (rest : List Char) : Prop := ∀ char ∈ rest.head?, char.isDigit = false

theorem Ended.undigited (ended : Ended rest) : Undigited rest := by
  intro char next
  rcases ended char next with rfl | rfl <;> rfl

private theorem takeWhile_digits (all : ∀ char ∈ digits, char.isDigit = true)
    (stop : Undigited rest) :
    (digits ++ rest).takeWhile Char.isDigit = digits ∧
      (digits ++ rest).dropWhile Char.isDigit = rest := by
  rw [List.takeWhile_append_of_pos all, List.dropWhile_append_of_pos all]
  cases rest with
  | nil => simp
  | cons char more => simp [stop char rfl]

private theorem readWhole?_append (part : WholePart whole) (stop : Undigited rest) :
    readWhole? (whole ++ rest) = some (whole, rest) := by
  obtain ⟨digit, digits, rfl⟩ := List.exists_cons_of_ne_nil part.nonempty
  rw [List.cons_append, readWhole?]
  split
  · rename_i zero
    subst zero
    obtain rfl : digits = [] := (List.cons.inj (part.leading rfl)).2
    rfl
  · obtain ⟨taken, dropped⟩ :=
      takeWhile_digits (fun char member => part.all char (List.mem_cons_of_mem digit member)) stop
    rw [if_pos (part.all digit List.mem_cons_self), taken, dropped]

private theorem readFraction?_append (nonempty : fraction ≠ [])
    (all : ∀ char ∈ fraction, char.isDigit = true) (stop : Undigited rest) :
    readFraction? ('.' :: (fraction ++ rest)) = some (fraction, rest) := by
  obtain ⟨taken, dropped⟩ := takeWhile_digits all stop
  rw [readFraction?, taken, dropped, if_neg (by simpa using nonempty)]

private theorem readFraction?_none (other : rest.head? ≠ some '.') : readFraction? rest = none := by
  unfold readFraction?
  split
  · exact absurd rfl other
  · rfl

private theorem readExponent?_ended (ended : Ended rest) : readExponent? rest = none := by
  cases rest with
  | nil => rfl
  | cons mark rest =>
    rw [readExponent?, if_neg]
    rcases ended mark rfl with rfl | rfl <;> decide

private theorem readExponent?_append (exponent : Int) (stop : Undigited rest) :
    readExponent? (exponentText exponent ++ rest) = some (exponent, rest) := by
  have all : ∀ char ∈ zeros (2 - (Nat.toDigits 10 exponent.natAbs).length) ++
      Nat.toDigits 10 exponent.natAbs, char.isDigit = true :=
    List.forall_mem_append.mpr
      ⟨zeros_digits _, fun _ => Nat.isDigit_of_mem_toDigits (by decide) (by decide)⟩
  have some : (zeros (2 - (Nat.toDigits 10 exponent.natAbs).length) ++
      Nat.toDigits 10 exponent.natAbs).isEmpty = false := by
    simp [Nat.toDigits_ne_nil]
  have value : natOfDigits (zeros (2 - (Nat.toDigits 10 exponent.natAbs).length) ++
      Nat.toDigits 10 exponent.natAbs) = exponent.natAbs := by
    rw [natOfDigits_append, natOfDigits_zeros, natOfDigits_toDigits, Nat.zero_mul, Nat.zero_add]
  obtain ⟨taken, dropped⟩ := takeWhile_digits all stop
  rw [exponentText]
  generalize zeros (2 - (Nat.toDigits 10 exponent.natAbs).length) ++
    Nat.toDigits 10 exponent.natAbs = digits at *
  have signed : (if exponent < 0 then -(natOfDigits digits : Int) else natOfDigits digits) =
      exponent := by omega
  rw [List.cons_append, readExponent?, if_pos (.inl rfl)]
  by_cases negative : exponent < 0
  · rw [if_pos negative] at signed
    simp [negative, taken, dropped, some, signed]
  · rw [if_neg negative] at signed
    simp [negative, taken, dropped, some, signed]

/-- The sign of a number. -/
def minus (negative : Bool) : List Char := if negative then ['-'] else []

/-- A number is read in three parts: the whole, the fraction and the exponent. -/
theorem readNumber?_eq (negative : Bool) (part : WholePart whole) (stop : Undigited tail)
    (fraction : readFraction? tail = decimals)
    (exponent : readExponent? ((decimals.map Prod.snd).getD tail) = scale) :
    readNumber? none (minus negative ++ (whole ++ tail)) =
      some (.ok (if decimals.isNone ∧ scale.isNone then
          .integer (if negative then -(natOfDigits whole : Int) else natOfDigits whole)
        else .double (Decimal.toDouble negative
          ⟨natOfDigits (whole ++ (decimals.map Prod.fst).getD []),
            (scale.map Prod.fst).getD 0 - ((decimals.map Prod.fst).getD []).length⟩)),
        (scale.map Prod.snd).getD ((decimals.map Prod.snd).getD tail)) := by
  have read := readWhole?_append part stop
  have signed : ((minus negative ++ (whole ++ tail)).head? = some '-') = (negative = true) := by
    obtain ⟨digit, digits, rfl⟩ := List.exists_cons_of_ne_nil part.nonempty
    have unsigned : digit ≠ '-' := by
      rintro rfl
      exact absurd (part.all '-' List.mem_cons_self) (by decide)
    cases negative <;> simp [minus, unsigned]
  have body : (if negative = true then (minus negative ++ (whole ++ tail)).drop 1
      else minus negative ++ (whole ++ tail)) = whole ++ tail := by
    cases negative <;> rfl
  unfold readNumber?
  simp only [signed, body, read, Option.bind_eq_bind, Option.bind_some, fraction, exponent,
    Option.any_none, Bool.decide_eq_true]
  split <;> rfl

theorem toList_integerText (value : Int) :
    (toString value).toList = minus (value < 0) ++ Nat.toDigits 10 value.natAbs := by
  cases value with
  | ofNat size =>
    have unsigned : ¬ Int.ofNat size < 0 := by simp
    rw [decide_eq_false unsigned]
    exact Nat.toList_repr
  | negSucc size =>
    rw [decide_eq_true (Int.negSucc_lt_zero size), Int.natAbs_negSucc, ← Nat.toList_repr]
    exact String.toList_append

theorem readNumber?_integer (value : Int) (ended : Ended rest) :
    readNumber? none ((toString value).toList ++ rest) = some (.ok (.integer value), rest) := by
  have plain : rest.head? ≠ some '.' := by
    intro dot
    rcases ended '.' dot with other | other <;> cases other
  have read := readNumber?_eq (value < 0) (.toDigits value.natAbs) ended.undigited
    (readFraction?_none plain) (readExponent?_ended ended)
  have signed : (if value < 0 then -(value.natAbs : Int) else value.natAbs) = value := by omega
  rw [toList_integerText, List.append_assoc, read, natOfDigits_toDigits]
  simp only [Option.isNone_none, and_self, if_true, Option.map_none, Option.getD_none,
    decide_eq_true_eq, signed]

private theorem undigited_exponentText (exponent : Int) (rest : List Char) :
    Undigited (exponentText exponent ++ rest) := by
  intro char next
  cases next
  rfl

/-- A number with a digit before its exponent, and perhaps others after a point, is read as what they
round to. -/
theorem readNumber?_scientific (negative : Bool) (significant : Significant units (first :: others) point)
    (fits : Representable units) (nonzero : units ≠ 0) (ended : Ended rest) :
    readNumber? none (minus negative ++ ((first :: if others.isEmpty then [] else '.' :: others) ++
        exponentText (point - 1) ++ rest)) =
      some (.ok (.double (.finite negative units fits)), rest) := by
  have digits := significant.all
  have part : WholePart [first] := by
    refine ⟨by simp, fun char member => ?_, by simp⟩
    rw [List.mem_singleton.mp member]
    exact digits first List.mem_cons_self
  have scale := readExponent?_append (point - 1) ended.undigited
  have stop := undigited_exponentText (point - 1) rest
  have value := significant.toDouble_eq fits nonzero negative
  cases others with
  | nil =>
    have read := readNumber?_eq negative part stop (readFraction?_none (by simp [exponentText])) scale
    have place : point - 1 - 0 = point - ([first].length : Int) := by simp
    simp only [List.isEmpty_nil, if_true, List.singleton_append]
    rw [← value, ← place]
    simpa using read
  | cons second others =>
    have fraction := @readFraction?_append (second :: others) (exponentText (point - 1) ++ rest)
      (by simp) (fun char member => digits char (List.mem_cons_of_mem first member)) stop
    have read := readNumber?_eq negative part (by rintro char ⟨⟩; rfl) fraction scale
    have place : point - 1 - ((second :: others).length : Int) =
        point - ((first :: second :: others).length : Int) := by
      simp only [List.length_cons]
      omega
    rw [← value, ← place]
    simpa using read

private theorem magnitudeText_parts (fits : Representable units) (plain : 'e' ∉ magnitudeText units)
    (all : ∀ char ∈ whole, char.isDigit = true)
    (shape : magnitudeText units = whole ++ '.' :: fraction) : WholePart whole ∧ fraction ≠ [] := by
  by_cases zero : units = 0
  · subst zero
    have text : magnitudeText 0 = ['0'] ++ '.' :: ['0'] := rfl
    obtain ⟨rfl, rfl⟩ := append_cons_inj (by decide) (dot_not_mem all) (text.symm.trans shape)
    exact ⟨⟨by decide, all, fun _ => rfl⟩, by decide⟩
  · obtain ⟨digits, point, placed, significant⟩ := magnitudeText_significant fits zero
    rw [placed] at plain shape
    have inside : -4 < point ∧ point ≤ 16 :=
      Decidable.byContradiction fun outside => plain (mem_placedText significant.nonempty outside)
    exact significant.parts inside all shape

theorem readNumber?_double (negative : Bool) (fits : Representable units) (ended : Ended rest) :
    readNumber? none (minus negative ++ (magnitudeText units ++ rest)) =
      some (.ok (.double (.finite negative units fits)), rest) := by
  by_cases scientific : 'e' ∈ magnitudeText units
  · have nonzero : units ≠ 0 := by
      rintro rfl
      exact absurd scientific (by decide)
    obtain ⟨first, others, point, significant, shape⟩ := magnitudeText_scientific fits scientific
    rw [shape]
    exact readNumber?_scientific negative significant fits nonzero ended
  · obtain ⟨whole, fraction, shape, _, all, all', value⟩ := magnitudeText_reads fits scientific
    obtain ⟨part, nonempty⟩ := magnitudeText_parts fits scientific all shape
    have read := readNumber?_eq negative part (by rintro char ⟨⟩; rfl)
      (readFraction?_append nonempty all' ended.undigited) (readExponent?_ended ended)
    rw [shape, ← Decimal.toDouble_signed value negative, ← Int.zero_sub]
    simpa using read

end Json
end ScriptKit
