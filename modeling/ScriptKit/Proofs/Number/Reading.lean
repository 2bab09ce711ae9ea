import ScriptKit.Proofs.Number.Rounding

/-!
The texts of numbers read back. Digits without leading zeros name one number, a decimal may be moved
by a power of ten, and the text of a double without an exponent is a decimal of the same value as its
shortest one. With an exponent, its digits and its exponent can be told from the text.
-/
namespace ScriptKit

private theorem natOfDigits_eq (digits : List Char) :
    natOfDigits digits = Nat.ofDigitChars 10 digits 0 := by
  simp only [natOfDigits, Nat.ofDigitChars_eq_foldl, Nat.mul_comm 10]

@[simp]
theorem natOfDigits_append (first second : List Char) :
    natOfDigits (first ++ second) = natOfDigits first * 10 ^ second.length + natOfDigits second := by
  rw [natOfDigits_eq, natOfDigits_eq, natOfDigits_eq, Nat.ofDigitChars_append,
    Nat.ofDigitChars_eq_ofDigitChars_zero, Nat.mul_comm]

@[simp]
theorem natOfDigits_zeros (count : Nat) : natOfDigits (zeros count) = 0 := by
  rw [natOfDigits_eq, zeros, Nat.ofDigitChars_replicate_zero, Nat.mul_zero]

theorem natOfDigits_zero : natOfDigits ['0'] = 0 := rfl

@[simp]
private theorem length_zeros (count : Nat) : (zeros count).length = count := List.length_replicate

theorem natOfDigits_toDigits (value : Nat) : natOfDigits (Nat.toDigits 10 value) = value := by
  rw [natOfDigits_eq, Nat.ofDigitChars_ten_toDigits]

theorem natOfDigits_lt {digits : List Char} (all : ∀ char ∈ digits, char.isDigit = true) :
    natOfDigits digits < 10 ^ digits.length := by
  induction digits with
  | nil => decide
  | cons digit digits ih =>
    have rest := ih fun char member => all char (List.mem_cons_of_mem digit member)
    have bounded : natOfDigits [digit] ≤ 9 := by
      have isDigit := all digit List.mem_cons_self
      simp only [Char.isDigit, Bool.and_eq_true, decide_eq_true_eq, UInt32.le_iff_toNat_le] at isDigit
      have := isDigit.2
      change 0 * 10 + (digit.val.toNat - 48) ≤ 9
      change digit.val.toNat ≤ 57 at this
      omega
    rw [← List.singleton_append, natOfDigits_append, List.length_append, List.length_singleton,
      Nat.add_comm 1, Nat.pow_succ]
    have := Nat.mul_le_mul_right (10 ^ digits.length) bounded
    omega

theorem digitCount_le {digits : List Char} (nonempty : digits ≠ [])
    (all : ∀ char ∈ digits, char.isDigit = true) :
    Decimal.digitCount (natOfDigits digits) ≤ digits.length :=
  (Nat.length_toDigits_le_iff (by decide) (List.length_pos_iff.mpr nonempty)).mpr
    (natOfDigits_lt all)

private theorem roundQuotient_scale (positive : 0 < scale) (numerator denominator : Nat) :
    roundQuotient (numerator * scale) (denominator * scale) = roundQuotient numerator denominator := by
  unfold roundQuotient
  dsimp only
  rw [Nat.mul_div_mul_right _ _ positive, Nat.mul_mod_mul_right, ← Nat.mul_assoc]
  simp only [Nat.mul_lt_mul_right positive, Nat.mul_right_cancel_iff positive]

/-- Rounding depends on the quotient only. -/
theorem roundUnits_scale (positive : 0 < scale) (numerator denominator : Nat) :
    roundUnits (numerator * scale) (denominator * scale) = roundUnits numerator denominator := by
  unfold roundUnits
  dsimp only
  rw [Nat.mul_div_mul_right _ _ positive, Nat.mul_right_comm, roundQuotient_scale positive]

private theorem roundUnits_congr (cross : numerator * denominator' = numerator' * denominator)
    (positive : 0 < denominator) (positive' : 0 < denominator') :
    roundUnits numerator denominator = roundUnits numerator' denominator' := by
  rw [← roundUnits_scale positive' numerator, cross, Nat.mul_comm denominator,
    roundUnits_scale positive]

namespace Decimal

theorem ratio_eq (count : Nat) (place : Int) :
    ratio ⟨count, place⟩ =
      (count * 10 ^ place.toNat * unitsPerOne, 10 ^ (-place).toNat) := by
  cases place with
  | ofNat places => simp [ratio]
  | negSucc places => simp [ratio, Int.neg_negSucc]

/-- The number is the same when digits and exponent are moved by a power of ten. -/
theorem roundUnits_shift (count shift : Nat) (place : Int) :
    roundUnits (ratio ⟨count * 10 ^ shift, place - shift⟩).1 (ratio ⟨count * 10 ^ shift, place - shift⟩).2 =
      roundUnits (ratio ⟨count, place⟩).1 (ratio ⟨count, place⟩).2 := by
  rw [ratio_eq, ratio_eq]
  refine roundUnits_congr ?_ (Nat.pow_pos (by decide)) (Nat.pow_pos (by decide))
  have power : 10 ^ shift * 10 ^ (place - shift).toNat * 10 ^ (-place).toNat =
      10 ^ place.toNat * 10 ^ (-(place - shift)).toNat := by
    rw [← Nat.pow_add, ← Nat.pow_add, ← Nat.pow_add]
    congr 1
    omega
  calc count * 10 ^ shift * 10 ^ (place - shift).toNat * unitsPerOne * 10 ^ (-place).toNat
      = count * (10 ^ shift * 10 ^ (place - shift).toNat * 10 ^ (-place).toNat) * unitsPerOne := by
        rw [Nat.mul_right_comm _ unitsPerOne]
        simp only [Nat.mul_assoc]
    _ = count * 10 ^ place.toNat * unitsPerOne * 10 ^ (-(place - shift)).toNat := by
        rw [power, Nat.mul_right_comm _ unitsPerOne]
        simp only [Nat.mul_assoc]

/-- Digits that are no zeros in front are as many as the number has. -/
theorem le_digitCount (large : 10 ^ (count - 1) ≤ value) : count ≤ digitCount value := by
  rcases Nat.eq_zero_or_pos (count - 1) with single | several
  · have : 0 < digitCount value := Nat.length_toDigits_pos
    omega
  · apply Nat.le_of_not_lt
    intro fewer
    have small := (Nat.length_toDigits_le_iff (by decide) several).mp (Nat.le_sub_one_of_lt fewer)
    omega

end Decimal

/-- `Positional text point digits`: the text is digits with a point in them, it has the value of the
digits given with `point` of them before the point, and it has some more zeros at the end. -/
structure Positional (digits : List Char) (point : Int) (whole fraction : List Char) (more : Nat) :
    Prop where
  nonempty : whole ≠ []
  short : whole.length ≤ 16
  wholeDigits : ∀ char ∈ whole, char.isDigit = true
  fractionDigits : ∀ char ∈ fraction, char.isDigit = true
  value : natOfDigits (whole ++ fraction) = natOfDigits digits * 10 ^ more
  place : (fraction.length : Int) = digits.length - point + more

theorem zeros_digits (count : Nat) : ∀ char ∈ zeros count, char.isDigit = true := by
  intro char member
  rw [List.eq_of_mem_replicate member]
  decide

section
variable {digits : List Char} {point : Int}

theorem mem_placedText (nonempty : digits ≠ []) (outside : ¬ (-4 < point ∧ point ≤ 16)) :
    'e' ∈ placedText digits point := by
  obtain ⟨first, rest, rfl⟩ := List.exists_cons_of_ne_nil nonempty
  simp [placedText, outside, exponentText]

private theorem placedText_positional (nonempty : digits ≠ [])
    (all : ∀ char ∈ digits, char.isDigit = true) (inside : -4 < point ∧ point ≤ 16) :
    ∃ whole fraction more, placedText digits point = whole ++ '.' :: fraction ∧
      Positional digits point whole fraction more := by
  have zero : ∀ char ∈ ['0'], char.isDigit = true := List.all_eq_true.mp rfl
  unfold placedText
  rw [if_pos inside]
  by_cases before : point ≤ 0
  · rw [if_pos before]
    refine ⟨['0'], zeros (-point).toNat ++ digits, 0, rfl, by simp, by simp, zero, ?_, ?_, ?_⟩
    · exact List.forall_mem_append.mpr ⟨zeros_digits _, all⟩
    · rw [natOfDigits_append, natOfDigits_append, natOfDigits_zeros]
      simp [natOfDigits_zero]
    · simp
      omega
  · rw [if_neg before]
    obtain ⟨places, rfl⟩ := Int.eq_ofNat_of_zero_le (by omega : 0 ≤ point)
    simp only [Int.toNat_natCast]
    rcases Nat.lt_or_ge places digits.length with within | beyond
    · have some : (digits.drop places).isEmpty = false := by simp [within]
      refine ⟨digits.take places, digits.drop places, 0, ?_, ?_, ?_, ?_, ?_, ?_, ?_⟩
      · rw [some, Nat.sub_eq_zero_of_le (Nat.le_of_lt within)]
        simp [zeros]
      · apply List.ne_nil_of_length_pos
        rw [List.length_take]
        omega
      · simp
        omega
      · exact fun char member => all char (List.mem_of_mem_take member)
      · exact fun char member => all char (List.mem_of_mem_drop member)
      · simp
      · simp
        omega
    · refine ⟨digits ++ zeros (places - digits.length), ['0'], places - digits.length + 1, ?_, ?_, ?_,
        ?_, zero, ?_, ?_⟩
      · simp [List.take_of_length_le beyond, List.drop_of_length_le beyond]
      · simp [nonempty]
      · simp
        omega
      · exact List.forall_mem_append.mpr ⟨all, zeros_digits _⟩
      · simp [natOfDigits_zero, Nat.pow_succ]
      · simp
        omega

theorem Double.ofRatio_eq (same : roundUnits numerator denominator = units)
    (fits : Representable units) :
    Double.ofRatio negative numerator denominator = .finite negative units fits := by
  subst same
  unfold Double.ofRatio
  rw [dif_pos fits.2]

/-- A positional text of digits that do not start with zero is read as the number they round to. -/
theorem Positional.toDouble_eq (positional : Positional digits point whole fraction more)
    (inside : -4 < point ∧ point ≤ 16) (large : 10 ^ (digits.length - 1) ≤ natOfDigits digits)
    (rounded : roundUnits (Decimal.ratio ⟨natOfDigits digits, point - digits.length⟩).1
      (Decimal.ratio ⟨natOfDigits digits, point - digits.length⟩).2 = units)
    (fits : Representable units) :
    Decimal.toDouble false ⟨natOfDigits (whole ++ fraction), -(fraction.length : Int)⟩ =
      .finite false units fits := by
  have some := List.append_ne_nil_of_left_ne_nil positional.nonempty fraction
  have count := digitCount_le some
    (List.forall_mem_append.mpr ⟨positional.wholeDigits, positional.fractionDigits⟩)
  have value := positional.value
  have place := positional.place
  have short := positional.short
  have one : 0 < digits.length := by
    apply List.length_pos_iff.mpr
    rintro rfl
    exact absurd large (by decide)
  have power : 10 ^ (digits.length + more - 1) ≤ natOfDigits digits * 10 ^ more := by
    rw [Nat.sub_add_comm one, Nat.pow_add]
    exact Nat.mul_le_mul_right _ large
  have enough := Decimal.le_digitCount power
  have nonzero : 0 < natOfDigits digits * 10 ^ more :=
    Nat.lt_of_lt_of_le (Nat.pow_pos (by decide)) power
  rw [List.length_append, value] at count
  rw [value]
  unfold Decimal.toDouble
  dsimp only
  rw [if_neg (by omega), if_neg (by omega)]
  have moved : -(fraction.length : Int) = point - digits.length - more := by omega
  rw [moved]
  exact Double.ofRatio_eq ((Decimal.roundUnits_shift _ _ _).trans rounded) fits

end

private theorem significant_zeros (digits : List Char) :
    ∃ count, digits = (digits.reverse.dropWhile (· == '0')).reverse ++ zeros count := by
  refine ⟨(digits.reverse.takeWhile (· == '0')).length, ?_⟩
  have all : digits.reverse.takeWhile (· == '0') =
      zeros (digits.reverse.takeWhile (· == '0')).length := by
    refine List.eq_replicate_iff.mpr ⟨rfl, fun char member => ?_⟩
    simpa using List.all_eq_true.mp List.all_takeWhile char member
  have reversed : (digits.reverse.takeWhile (· == '0')).reverse =
      zeros (digits.reverse.takeWhile (· == '0')).length := by
    rw [all, zeros, List.reverse_replicate, ← zeros, length_zeros]
  rw [← reversed, ← List.reverse_append, List.takeWhile_append_dropWhile, List.reverse_reverse]

private theorem roundUnits_zero (denominator : Nat) : roundUnits 0 denominator = 0 := by
  have rounded (step : Nat) : roundQuotient 0 step = 0 := by
    unfold roundQuotient
    rw [Nat.zero_div, Nat.zero_mod]
    grind
  unfold roundUnits
  dsimp only
  rw [rounded, Nat.zero_mul]

/-- Digits with no zero in front that name the magnitude, with `point` of them before the point. -/
structure Significant (units : Nat) (digits : List Char) (point : Int) : Prop where
  nonempty : digits ≠ []
  all : ∀ char ∈ digits, char.isDigit = true
  large : 10 ^ (digits.length - 1) ≤ natOfDigits digits
  rounded : roundUnits (Decimal.ratio ⟨natOfDigits digits, point - digits.length⟩).1
    (Decimal.ratio ⟨natOfDigits digits, point - digits.length⟩).2 = units

/-- The text of a magnitude has the digits of its shortest decimal, without the zeros at the end. -/
theorem magnitudeText_significant (fits : Representable units) (nonzero : units ≠ 0) :
    ∃ digits point, magnitudeText units = placedText digits point ∧
      Significant units digits point := by
  have reads := beq_iff_eq.mp (Decimal.readsBack_shortest fits (Nat.pos_of_ne_zero nonzero))
  unfold magnitudeText
  rw [if_neg nonzero]
  generalize Decimal.shortest units = decimal at reads ⊢
  obtain ⟨count, place⟩ := decimal
  dsimp only
  have positive : 0 < count := by
    rcases Nat.eq_zero_or_pos count with none | positive
    · subst none
      rw [Decimal.ratio_eq, Nat.zero_mul, Nat.zero_mul, roundUnits_zero] at reads
      exact absurd reads.symm nonzero
    · exact positive
  obtain ⟨trailing, split⟩ := significant_zeros (Nat.toDigits 10 count)
  have digit : ∀ char ∈ Nat.toDigits 10 count, char.isDigit = true :=
    fun char => Nat.isDigit_of_mem_toDigits (by decide) (by decide)
  have value := natOfDigits_toDigits count
  have length : Decimal.digitCount count = (Nat.toDigits 10 count).length := rfl
  generalize ((Nat.toDigits 10 count).reverse.dropWhile (· == '0')).reverse = digits at split ⊢
  rw [split] at digit value length ⊢
  rw [natOfDigits_append, natOfDigits_zeros, length_zeros, Nat.add_zero] at value
  rw [List.length_append, length_zeros] at length ⊢
  have nonempty : digits ≠ [] := by
    rintro rfl
    rw [natOfDigits, List.foldl_nil, Nat.zero_mul] at value
    omega
  refine ⟨digits, _, rfl, nonempty, fun char member => digit char (List.mem_append_left _ member),
    ?_, ?_⟩
  · have power := Decimal.power_digitCount_le positive
    rw [length, ← value, Nat.sub_add_comm (List.length_pos_iff.mpr nonempty), Nat.pow_add] at power
    exact Nat.le_of_mul_le_mul_right power (Nat.pow_pos (by decide))
  · have moved : ((digits.length + trailing : Nat) : Int) + place - digits.length =
        place + trailing := by
      omega
    rw [moved, ← Decimal.roundUnits_shift _ trailing, value, Int.add_sub_cancel]
    exact reads

/-- The text of a magnitude without an exponent is read as that magnitude. -/
theorem magnitudeText_reads (fits : Representable units) (plain : 'e' ∉ magnitudeText units) :
    ∃ whole fraction, magnitudeText units = whole ++ '.' :: fraction ∧ whole ≠ [] ∧
      (∀ char ∈ whole, char.isDigit = true) ∧ (∀ char ∈ fraction, char.isDigit = true) ∧
      Decimal.toDouble false ⟨natOfDigits (whole ++ fraction), -(fraction.length : Int)⟩ =
        .finite false units fits := by
  by_cases zero : units = 0
  · subst zero
    have digit : ∀ char ∈ ['0'], char.isDigit = true := List.all_eq_true.mp rfl
    refine ⟨['0'], ['0'], rfl, by decide, digit, digit, ?_⟩
    unfold Decimal.toDouble
    rw [if_pos (.inl rfl)]
    rfl
  obtain ⟨digits, point, shape, significant⟩ := magnitudeText_significant fits zero
  rw [shape] at plain ⊢
  have inside : -4 < point ∧ point ≤ 16 :=
    Decidable.byContradiction fun outside => plain (mem_placedText significant.nonempty outside)
  obtain ⟨whole, fraction, more, same, positional⟩ :=
    placedText_positional significant.nonempty significant.all inside
  exact ⟨whole, fraction, same, positional.nonempty, positional.wholeDigits,
    positional.fractionDigits,
    positional.toDouble_eq inside significant.large significant.rounded fits⟩

/-- Digits are written with an exponent or without any letter. -/
theorem placedText_scientific (all : ∀ char ∈ digits, char.isDigit = true)
    (present : 'e' ∈ placedText digits point) :
    ∃ first others, digits = first :: others ∧ placedText digits point =
      (first :: if others.isEmpty then [] else '.' :: others) ++ exponentText (point - 1) := by
  cases digits with
  | nil =>
    exfalso
    unfold placedText at present
    simp only [zeros, List.append_nil, List.take_nil, List.nil_append] at present
    split at present
    · split at present <;> simp at present
    · cases present
  | cons first others =>
    by_cases inside : -4 < point ∧ point ≤ 16
    · exfalso
      obtain ⟨whole, fraction, _, shape, positional⟩ := placedText_positional (by simp) all inside
      rw [shape] at present
      rcases List.mem_append.mp present with member | member
      · cases positional.wholeDigits 'e' member
      · rcases List.mem_cons.mp member with point | member
        · cases point
        · cases positional.fractionDigits 'e' member
    · refine ⟨first, others, rfl, ?_⟩
      rw [placedText, if_neg inside]

private theorem exponentText_inj (same : exponentText exponent = exponentText exponent') :
    exponent = exponent' := by
  simp only [exponentText, List.cons.injEq, true_and] at same
  obtain ⟨sign, digits⟩ := same
  have absolute : exponent.natAbs = exponent'.natAbs := by
    have values := congrArg natOfDigits digits
    simpa [natOfDigits_toDigits] using values
  have negative : exponent < 0 ↔ exponent' < 0 := by
    by_cases below : exponent < 0 <;> by_cases below' : exponent' < 0 <;>
      simp [below, below'] at sign ⊢
  omega

/-- A list is divided in one way at the first place of a mark. -/
theorem append_cons_inj {mark : α} {front front' back back' : List α} (absent : mark ∉ front)
    (absent' : mark ∉ front') (same : front ++ mark :: back = front' ++ mark :: back') :
    front = front' ∧ back = back' := by
  rcases List.append_eq_append_iff.mp same with ⟨middle, rfl, split⟩ | ⟨middle, rfl, split⟩ <;>
    cases middle <;> simp_all

/-- What stands before an exponent and the exponent are known from the text. -/
theorem scientific_inj (all : ∀ char ∈ first :: others, char.isDigit = true)
    (all' : ∀ char ∈ first' :: others', char.isDigit = true)
    (same : (first :: if others.isEmpty then [] else '.' :: others) ++ exponentText exponent =
      (first' :: if others'.isEmpty then [] else '.' :: others') ++ exponentText exponent') :
    first :: others = first' :: others' ∧ exponent = exponent' := by
  have absent {first : Char} {others : List Char}
      (all : ∀ char ∈ first :: others, char.isDigit = true) :
      'e' ∉ first :: if others.isEmpty then [] else '.' :: others := by
    intro present
    have digits : 'e' ∈ first :: others := by
      cases others <;> simpa using present
    cases all 'e' digits
  obtain ⟨mantissa, exponents⟩ := append_cons_inj (absent all) (absent all') same
  refine ⟨?_, exponentText_inj (congrArg ('e' :: ·) exponents)⟩
  cases others <;> cases others' <;> simp_all

/-- A magnitude that is written with an exponent has its digits before it. -/
theorem magnitudeText_scientific (fits : Representable units) (present : 'e' ∈ magnitudeText units) :
    ∃ first others point, Significant units (first :: others) point ∧ magnitudeText units =
      (first :: if others.isEmpty then [] else '.' :: others) ++ exponentText (point - 1) := by
  have nonzero : units ≠ 0 := by
    rintro rfl
    exact absurd present (by decide)
  obtain ⟨digits, point, shape, significant⟩ := magnitudeText_significant fits nonzero
  rw [shape] at present
  obtain ⟨first, others, rfl, text⟩ := placedText_scientific significant.all present
  exact ⟨first, others, point, significant, shape.trans text⟩

/-- Magnitudes that are written with an exponent are written differently. -/
theorem magnitudeText_inj (fits : Representable units) (fits' : Representable units')
    (present : 'e' ∈ magnitudeText units) (same : magnitudeText units = magnitudeText units') :
    units = units' := by
  obtain ⟨first, others, point, significant, shape⟩ := magnitudeText_scientific fits present
  obtain ⟨first', others', point', significant', shape'⟩ :=
    magnitudeText_scientific fits' (same ▸ present)
  rw [shape, shape'] at same
  obtain ⟨digits, exponents⟩ := scientific_inj significant.all significant'.all same
  obtain rfl : point = point' := by omega
  have rounded := significant'.rounded
  rw [← digits] at rounded
  exact significant.rounded.symm.trans rounded

end ScriptKit
