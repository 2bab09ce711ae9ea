import Mathlib.Data.String.Basic
import Mathlib.Order.Compare
import Mathlib.Order.WithBot
import ScriptKit.Proofs.Evaluation.Run
import ScriptKit.Proofs.Number.Division

/-!
Comparing values. Numbers are compared by their exact values, integers of any size with doubles too, so
that their order is the one of the rationals with an infinity at each end. Strings have their own
order, and there is none between values of any other types.
-/
namespace ScriptKit

/-- The rationals with an infinity at each end. -/
abbrev ExtendedRat := WithBot (WithTop Rat)

namespace ExtendedRat

def ofRat (value : Rat) : ExtendedRat := WithBot.some (WithTop.some value)

@[simp] theorem ofRat_lt_ofRat {one two : Rat} : ofRat one < ofRat two ↔ one < two :=
  WithBot.coe_lt_coe.trans WithTop.coe_lt_coe

@[simp] theorem ofRat_inj {one two : Rat} : ofRat one = ofRat two ↔ one = two :=
  WithBot.coe_inj.trans WithTop.coe_inj

@[simp] theorem bot_lt_ofRat (value : Rat) : ⊥ < ofRat value := WithBot.bot_lt_coe _

@[simp] theorem ofRat_lt_top (value : Rat) : ofRat value < ⊤ :=
  WithBot.coe_lt_coe.mpr (WithTop.coe_lt_top value)

@[simp] theorem ofRat_ne_bot (value : Rat) : ofRat value ≠ ⊥ := (bot_lt_ofRat value).ne'

@[simp] theorem bot_ne_ofRat (value : Rat) : ⊥ ≠ ofRat value := (bot_lt_ofRat value).ne

@[simp] theorem ofRat_ne_top (value : Rat) : ofRat value ≠ ⊤ := (ofRat_lt_top value).ne

@[simp] theorem top_ne_ofRat (value : Rat) : ⊤ ≠ ofRat value := (ofRat_lt_top value).ne'

end ExtendedRat

namespace Number

/-- The exact value of a number, unless it is not a number. -/
def extended? : Number → Option ExtendedRat
  | .integer value => some (.ofRat value)
  | .double .nan => none
  | .double (.infinite negative) => some (if negative then ⊥ else ⊤)
  | .double (.finite negative units _) => some (.ofRat (Double.signed negative units / unitsPerOne))

/-- The place of a number in the order is the one of its exact value. -/
theorem rank?_of_extended? {number : Number} (exact : number.extended? = some value) :
    (value = ⊥ ∧ number.rank? = some (-1, 0)) ∨ (value = ⊤ ∧ number.rank? = some (1, 0)) ∨
      ∃ (rational : Rat) (units : Int), value = .ofRat rational ∧
        rational * unitsPerOne = units ∧ number.rank? = some (0, units) := by
  have nonzero : (unitsPerOne : Rat) ≠ 0 := Nat.cast_ne_zero.mpr unitsPerOne_pos.ne'
  match number, exact with
  | .integer whole, exact =>
    cases exact
    refine .inr (.inr ⟨whole, whole * unitsPerOne, rfl, ?_, rfl⟩)
    rw [Int.cast_mul, Int.cast_natCast]
  | .double (.infinite true), exact =>
    cases exact
    exact .inl ⟨rfl, rfl⟩
  | .double (.infinite false), exact =>
    cases exact
    exact .inr (.inl ⟨rfl, rfl⟩)
  | .double (.finite negative units fits), exact =>
    cases exact
    exact .inr (.inr ⟨_, _, rfl, div_mul_cancel₀ _ nonzero, rfl⟩)

private theorem rank?_of_inexact {number : Number} (inexact : number.extended? = none) :
    number.rank? = none := by
  cases number with
  | integer => cases inexact
  | double double =>
    cases double with
    | nan => rfl
    | infinite => cases inexact
    | finite => cases inexact

private theorem units_lt_iff {one two : Rat} {units units' : Int} (same : one * unitsPerOne = units)
    (same' : two * unitsPerOne = units') : one < two ↔ units < units' := by
  have positive : (0 : Rat) < unitsPerOne := Nat.cast_pos.mpr unitsPerOne_pos
  rw [← Int.cast_lt (R := Rat), ← same, ← same', mul_lt_mul_iff_left₀ positive]

private theorem units_eq_iff {one two : Rat} {units units' : Int} (same : one * unitsPerOne = units)
    (same' : two * unitsPerOne = units') : one = two ↔ units = units' := by
  have nonzero : (unitsPerOne : Rat) ≠ 0 := Nat.cast_ne_zero.mpr unitsPerOne_pos.ne'
  rw [← Int.cast_inj (α := Rat), ← same, ← same', mul_left_inj' nonzero]

section
variable {left right : Number} {first second : ExtendedRat}

private theorem less_iff (exact : left.extended? = some first)
    (exact' : right.extended? = some second) :
    left.less right = true ↔ first < second := by
  rcases rank?_of_extended? exact with ⟨rfl, rank⟩ | ⟨rfl, rank⟩ | ⟨one, units, rfl, same, rank⟩ <;>
    rcases rank?_of_extended? exact' with
      ⟨rfl, rank'⟩ | ⟨rfl, rank'⟩ | ⟨two, units', rfl, same', rank'⟩ <;>
    simp [less, rank, rank']
  exact (units_lt_iff same same').symm

private theorem equal_iff (exact : left.extended? = some first)
    (exact' : right.extended? = some second) :
    left.equal right = true ↔ first = second := by
  rcases rank?_of_extended? exact with ⟨rfl, rank⟩ | ⟨rfl, rank⟩ | ⟨one, units, rfl, same, rank⟩ <;>
    rcases rank?_of_extended? exact' with
      ⟨rfl, rank'⟩ | ⟨rfl, rank'⟩ | ⟨two, units', rfl, same', rank'⟩ <;>
    simp [equal, rank, rank']
  exact (units_eq_iff same same').symm

/-- What is not a number is neither less than a number nor equal to one. -/
theorem unordered (inexact : left.extended? = none ∨ right.extended? = none) :
    left.less right = false ∧ left.equal right = false := by
  unfold less equal
  rcases inexact with inexact | inexact
  · rw [rank?_of_inexact inexact]
    exact ⟨rfl, rfl⟩
  · rw [rank?_of_inexact inexact]
    cases left.rank? <;> exact ⟨rfl, rfl⟩

private theorem equal_eq_true :
    left.equal right = true ↔ ∃ value, left.extended? = some value ∧ right.extended? = some value := by
  constructor
  · intro same
    cases exact : left.extended? with
    | none => exact Bool.noConfusion ((unordered (.inl exact)).2.symm.trans same)
    | some first =>
      cases exact' : right.extended? with
      | none => exact Bool.noConfusion ((unordered (.inr exact')).2.symm.trans same)
      | some second =>
        obtain rfl := (equal_iff exact exact').mp same
        exact ⟨first, rfl, rfl⟩
  · rintro ⟨value, exact, exact'⟩
    exact (equal_iff exact exact').mpr rfl

end

end Number

namespace Value

def isNaN : Value → Bool
  | .number (.double .nan) => true
  | _ => false

/-- Both values are numbers, or both are strings. -/
def SameSort (left right : Value) : Prop :=
  left.typeName = right.typeName ∧ (left.typeName = "number" ∨ left.typeName = "string")

/-- Whatever expressions have the two values, evaluating them with the operator in between has the
result, and does nothing else. -/
def Gives (operator : BinaryOperator) (left right : Value)
    (result : Option String → Span → Except RunFault Value) : Prop :=
  ∀ file span fuel first second before middle after,
    Yields (evaluate file fuel (.expression first)) before (.ok left) middle →
    Yields (evaluate file fuel (.expression second)) middle (.ok right) after →
    Yields (evaluate file (fuel + 1) (.expression (.binary span operator first second))) before
      (result file span) after

/-- Evaluating the comparison has the answer for its value. -/
def Tells (operator : BinaryOperator) (left right : Value) (answer : Bool) : Prop :=
  Gives operator left right fun _ _ => .ok (.boolean answer)

/-- The comparisons say that the values are in this order. -/
structure Compared (left right : Value) (order : Ordering) : Prop where
  less : Tells .less left right (order == .lt)
  equal : Tells .equal left right (order == .eq)
  greater : Tells .greater left right (order == .gt)
  lessEqual : Tells .lessEqual left right (order == .lt || order == .eq)
  greaterEqual : Tells .greaterEqual left right (order == .gt || order == .eq)

section
variable {operator : BinaryOperator} {left right : Value}

private theorem yields_variable {machine : Machine}
    (found : machine.heap.find? machine.scope name = some (owner, value)) :
    Yields (evaluate file (fuel + 1) (.expression (.identifier span name))) machine (.ok value)
      machine :=
  (Run.yields_lookup_ok.mpr ⟨found, rfl⟩).bind .pure

private theorem yields_binary
    (first : Yields (evaluate file fuel (.expression one)) before (.ok left) middle)
    (second : Yields (evaluate file fuel (.expression two)) middle (.ok right) after) :
    Yields (evaluate file (fuel + 1) (.expression (.binary span operator one two))) before
      (applyBinary file span operator left right) after :=
  first.bind (second.bind (Run.yields_settle.mpr ⟨rfl, rfl⟩))

/-- Every two values are those of some expressions: of variables that hold them. -/
theorem gives_iff {result : Option String → Span → Except RunFault Value} :
    Gives operator left right result ↔
      ∀ file span, applyBinary file span operator left right = result file span := by
  constructor
  · intro gives file span
    let machine : Machine := ⟨⟨#[⟨none, [("a", left), ("b", right)]⟩], 0⟩, 0, none, ""⟩
    have found : machine.heap.find? machine.scope "a" = some (0, left) := by
      rw [Heap.find?]
      rfl
    have found' : machine.heap.find? machine.scope "b" = some (0, right) := by
      rw [Heap.find?]
      rfl
    have first := @yields_variable _ _ _ file 0 span _ found
    have second := @yields_variable _ _ _ file 0 span _ found'
    exact ((yields_binary first second).unique (gives file span 1 _ _ _ _ _ first second)).1
  · intro applied file span fuel one two before middle after first second
    rw [← applied]
    exact yields_binary first second

private theorem tells_equal : Tells .equal left right answer ↔ left.equal right = answer := by
  simp [Tells, gives_iff, applyBinary]

private theorem tells_notEqual :
    Tells .notEqual left right answer ↔ (!left.equal right) = answer := by
  simp [Tells, gives_iff, applyBinary]

/-- The order operators ask in both directions, and fail where there is no order. -/
theorem applyBinary_order (isOrder : operator.isOrder = true) (file : Option String) (span : Span) :
    applyBinary file span operator left right =
      match left.order? right, right.order? left with
      | some order, some reversed =>
        .ok (.boolean ((comparison operator order reversed).getD false))
      | _, _ => .error (typeMismatch file span operator left right) := by
  cases operator with
  | greater | greaterEqual | less | lessEqual => rfl
  | _ => cases isOrder

end

/-- The values are compared as two elements of an ordered type are. -/
structure Placed {α : Type} [LinearOrder α] (left right : Value) (first second : α) : Prop where
  order : left.order? right = some (decide (first < second), decide (first = second))
  reversed : right.order? left = some (decide (second < first), decide (second = first))
  equal : left.equal right = decide (first = second)

private theorem placed_number {left right : Number} {first second : ExtendedRat}
    (exact : left.extended? = some first) (exact' : right.extended? = some second) :
    Placed (.number left) (.number right) first second := by
  have less : left.less right = decide (first < second) :=
    Bool.eq_iff_iff.mpr ((Number.less_iff exact exact').trans decide_eq_true_iff.symm)
  have greater : right.less left = decide (second < first) :=
    Bool.eq_iff_iff.mpr ((Number.less_iff exact' exact).trans decide_eq_true_iff.symm)
  have same : left.equal right = decide (first = second) :=
    Bool.eq_iff_iff.mpr ((Number.equal_iff exact exact').trans decide_eq_true_iff.symm)
  have same' : right.equal left = decide (second = first) :=
    Bool.eq_iff_iff.mpr ((Number.equal_iff exact' exact).trans decide_eq_true_iff.symm)
  exact ⟨by rw [order?, less, same], by rw [order?, greater, same'], same⟩

private theorem placed_string (left right : String) :
    Placed (.string left) (.string right) left right := by
  have same (one two : String) : (one == two) = decide (one = two) := rfl
  exact ⟨by rw [order?, same], by rw [order?, same], same left right⟩

section
variable {α : Type} [LinearOrder α] {first second third : α} {left right : Value}

theorem Placed.tells (placed : Placed left right first second) (isOrder : operator.isOrder = true) :
    Tells operator left right answer ↔
      (comparison operator (decide (first < second), decide (first = second))
        (decide (second < first), decide (second = first))).getD false = answer := by
  simp [Tells, gives_iff, applyBinary_order isOrder, placed.order, placed.reversed]

/-- Of two elements of an ordered type exactly one is less, unless they are equal. -/
theorem Placed.compared {order : Ordering} (placed : Placed left right first second)
    (compares : order.Compares first second) : Compared left right order := by
  have less : decide (first < second) = (order == .lt) :=
    Bool.eq_iff_iff.mpr (by rw [decide_eq_true_iff, beq_iff_eq, compares.eq_lt])
  have same : decide (first = second) = (order == .eq) :=
    Bool.eq_iff_iff.mpr (by rw [decide_eq_true_iff, beq_iff_eq, compares.eq_eq])
  have greater : decide (second < first) = (order == .gt) :=
    Bool.eq_iff_iff.mpr (by rw [decide_eq_true_iff, beq_iff_eq, compares.eq_gt])
  have same' : decide (second = first) = (order == .eq) :=
    (decide_eq_decide.mpr eq_comm).trans same
  refine ⟨?_, tells_equal.mpr (placed.equal.trans same), ?_, ?_, ?_⟩
  all_goals
    refine (placed.tells rfl).mpr ?_
    rw [less, same, greater, same']
    rfl

/-- The order operators are transitive on an ordered type. -/
theorem Placed.trans {middle : Value} (one : Placed left middle first second)
    (two : Placed middle right second third) (whole : Placed left right first third)
    (isOrder : operator.isOrder = true) (holds : Tells operator left middle true)
    (holds' : Tells operator middle right true) : Tells operator left right true := by
  rw [one.tells isOrder] at holds
  rw [two.tells isOrder] at holds'
  rw [whole.tells isOrder]
  cases operator with
  | greater | greaterEqual | less | lessEqual =>
    simp only [comparison, Option.getD_some, Bool.or_eq_true, decide_eq_true_eq] at holds holds' ⊢
    grind
  | _ => cases isOrder

end

/-- Values are equal when they are of one type and are the same, numbers by their exact values. -/
inductive Same : Value → Value → Prop where
  | undefined : Same .undefined .undefined
  | boolean : Same (.boolean value) (.boolean value)
  | number (exact : one.extended? = some value) (exact' : two.extended? = some value) :
      Same (.number one) (.number two)
  | string : Same (.string text) (.string text)
  | function {one two : Closure} (same : one.identity = two.identity) :
      Same (.function one) (.function two)

section
variable {left middle right : Value}

private theorem tells_equal_iff : Tells .equal left right true ↔ Same left right := by
  rw [tells_equal]
  constructor
  · intro equal
    unfold Value.equal at equal
    split at equal
    · exact .undefined
    · obtain rfl := beq_iff_eq.mp equal
      exact .boolean
    · obtain ⟨value, exact, exact'⟩ := Number.equal_eq_true.mp equal
      exact .number exact exact'
    · obtain rfl := beq_iff_eq.mp equal
      exact .string
    · exact .function (beq_iff_eq.mp equal)
    · cases equal
  · intro same
    cases same with
    | undefined => rfl
    | boolean => exact beq_self_eq_true _
    | number exact exact' => exact Number.equal_eq_true.mpr ⟨_, exact, exact'⟩
    | string => exact beq_self_eq_true _
    | function same => exact beq_iff_eq.mpr same

private theorem exact_of_isNaN {number : Number} (defined : (Value.number number).isNaN = false) :
    ∃ value, number.extended? = some value := by
  cases number with
  | integer => exact ⟨_, rfl⟩
  | double double =>
    cases double with
    | nan => cases defined
    | infinite => exact ⟨_, rfl⟩
    | finite => exact ⟨_, rfl⟩

theorem Same.refl (defined : left.isNaN = false) : Same left left := by
  cases left with
  | undefined => exact .undefined
  | boolean => exact .boolean
  | number =>
    obtain ⟨value, exact⟩ := exact_of_isNaN defined
    exact .number exact exact
  | string => exact .string
  | function => exact .function rfl

theorem Same.symm (same : Same left right) : Same right left := by
  cases same with
  | undefined => exact .undefined
  | boolean => exact .boolean
  | number exact exact' => exact .number exact' exact
  | string => exact .string
  | function same => exact .function same.symm

theorem Same.trans (first : Same left middle) (second : Same middle right) : Same left right := by
  cases first with
  | undefined => exact second
  | boolean => exact second
  | number one two =>
    cases second with
    | number three four =>
      rw [two] at three
      exact .number one (three ▸ four)
  | string => exact second
  | function same =>
    cases second with
    | function same' => exact .function (same.trans same')

theorem Same.typeName (same : Same left right) : left.typeName = right.typeName := by
  cases same <;> rfl

/-- Only two numbers or two strings have an order. -/
theorem order?_eq_none (other : ¬ SameSort left right) : left.order? right = none := by
  unfold order?
  split
  · exact absurd ⟨rfl, .inl rfl⟩ other
  · exact absurd ⟨rfl, .inr rfl⟩ other
  · rfl

private theorem sameSort_cases (sort : SameSort left right) :
    (∃ one two, left = .number one ∧ right = .number two) ∨
      ∃ one two, left = .string one ∧ right = .string two := by
  obtain ⟨same, sort⟩ := sort
  cases left with
  | number one =>
    cases right with
    | number two => exact .inl ⟨one, two, rfl, rfl⟩
    | _ => simp [typeName] at same
  | string one =>
    cases right with
    | string two => exact .inr ⟨one, two, rfl, rfl⟩
    | _ => simp [typeName] at same
  | _ => simp [typeName] at sort

private theorem gives_mismatch (isOrder : operator.isOrder = true) (other : ¬ SameSort left right) :
    Gives operator left right fun file span => .error (typeMismatch file span operator left right) := by
  refine gives_iff.mpr fun file span => ?_
  rw [applyBinary_order isOrder, order?_eq_none other]

/-- What is not a number is in no order with any number. -/
theorem tells_unordered {one two : Number} (isOrder : operator.isOrder = true)
    (inexact : one.extended? = none ∨ two.extended? = none) :
    Tells operator (.number one) (.number two) false := by
  refine gives_iff.mpr fun file span => ?_
  obtain ⟨less, same⟩ := Number.unordered inexact
  obtain ⟨greater, same'⟩ := Number.unordered inexact.symm
  rw [applyBinary_order isOrder, order?, order?, less, same, greater, same']
  cases operator with
  | greater | greaterEqual | less | lessEqual => rfl
  | _ => cases isOrder

theorem Tells.unique (one : Tells operator left right answer)
    (two : Tells operator left right answer') : answer = answer' := by
  have same := (gives_iff.mp one none default).symm.trans (gives_iff.mp two none default)
  exact Value.boolean.inj (Except.ok.inj same)

/-- Values that an order operator relates are two numbers that have exact values, or two strings. -/
theorem Tells.cases (isOrder : operator.isOrder = true) (holds : Tells operator left right true) :
    (∃ one two first second, left = .number one ∧ right = .number two ∧
      one.extended? = some first ∧ two.extended? = some second) ∨
    ∃ one two, left = .string one ∧ right = .string two := by
  by_cases sort : SameSort left right
  · rcases sameSort_cases sort with ⟨one, two, rfl, rfl⟩ | strings
    · left
      cases exact : one.extended? with
      | none => exact Bool.noConfusion (holds.unique (tells_unordered isOrder (.inl exact)))
      | some first =>
        cases exact' : two.extended? with
        | none => exact Bool.noConfusion (holds.unique (tells_unordered isOrder (.inr exact')))
        | some second => exact ⟨one, two, first, second, rfl, rfl, exact, exact'⟩
    · exact .inr strings
  · have mismatch := gives_iff.mp (gives_mismatch isOrder sort) none default
    rw [gives_iff.mp holds none default] at mismatch
    cases mismatch

theorem Tells.trans (isOrder : operator.isOrder = true) (first : Tells operator left middle true)
    (second : Tells operator middle right true) : Tells operator left right true := by
  rcases first.cases isOrder with ⟨one, two, _, _, rfl, rfl, exact, exact'⟩ | ⟨one, two, rfl, rfl⟩
  · rcases second.cases isOrder with ⟨_, three, _, _, ⟨⟩, rfl, _, exact''⟩ | ⟨_, _, impossible, _⟩
    · exact (placed_number exact exact').trans (placed_number exact' exact'')
        (placed_number exact exact'') isOrder first second
    · cases impossible
  · rcases second.cases isOrder with ⟨_, _, _, _, impossible, _⟩ | ⟨_, three, ⟨⟩, rfl⟩
    · cases impossible
    · exact (placed_string one two).trans (placed_string two three) (placed_string one three)
        isOrder first second

/-- Two numbers or two strings are in exactly one order. -/
theorem exists_compared (sort : SameSort left right) (defined : left.isNaN = false)
    (defined' : right.isNaN = false) : ∃ order, Compared left right order := by
  rcases sameSort_cases sort with ⟨one, two, rfl, rfl⟩ | ⟨one, two, rfl, rfl⟩
  · obtain ⟨first, exact⟩ := exact_of_isNaN defined
    obtain ⟨second, exact'⟩ := exact_of_isNaN defined'
    exact ⟨_, (placed_number exact exact').compared (cmp_compares first second)⟩
  · exact ⟨_, (placed_string one two).compared (cmp_compares one two)⟩

end

/-- Equality and order of values agree. All values can be asked for equality, which is an equivalence
apart from what is not a number, and equal values are of one type. Two numbers or two strings are in
exactly one order, which for numbers is the one of their exact values, and the order operators are
transitive; all other pairs of values make these operators fail. -/
theorem comparisons_coherent :
    (∀ left right, ∃ same, Tells .equal left right same ∧ Tells .notEqual left right (!same)) ∧
    (Equivalence fun one two : { value : Value // value.isNaN = false } =>
      Tells .equal one.1 two.1 true) ∧
    (∀ left right, Tells .equal left right true → left.typeName = right.typeName) ∧
    (∀ left right, SameSort left right → left.isNaN = false → right.isNaN = false →
      ∃ order, Compared left right order) ∧
    (∀ left right first second, Number.extended? left = some first →
      Number.extended? right = some second → ∀ order : Ordering, order.Compares first second →
        Compared (.number left) (.number right) order) ∧
    (∀ operator : BinaryOperator, operator.isOrder = true → ∀ left middle right,
      Tells operator left middle true → Tells operator middle right true →
        Tells operator left right true) ∧
    ∀ left right, ¬ SameSort left right → ∀ operator : BinaryOperator, operator.isOrder = true →
      Gives operator left right fun file span => .error (.located file span
        (.operandTypeMismatch operator.text left.typeName right.typeName)) := by
  refine ⟨?_, ⟨?_, ?_, ?_⟩, ?_, ?_, ?_, ?_, ?_⟩
  · intro left right
    exact ⟨_, tells_equal.mpr rfl, tells_notEqual.mpr rfl⟩
  · intro value
    exact tells_equal_iff.mpr (.refl value.2)
  · intro one two same
    exact tells_equal_iff.mpr (tells_equal_iff.mp same).symm
  · intro one two three first second
    exact tells_equal_iff.mpr ((tells_equal_iff.mp first).trans (tells_equal_iff.mp second))
  · intro left right same
    exact (tells_equal_iff.mp same).typeName
  · intro left right sort defined defined'
    exact exists_compared sort defined defined'
  · intro left right first second exact exact' order compares
    exact (placed_number exact exact').compared compares
  · intro operator isOrder left middle right first second
    exact first.trans isOrder second
  · intro left right other operator isOrder
    exact gives_mismatch isOrder other

/-- The first whole number that is no double is greater than the double before it. -/
theorem comparisons_coherent_neighbours :
    ∃ double, Number.extended? (.double double) = some (.ofRat 9007199254740992) ∧
      Number.extended? (.integer 9007199254740993) = some (.ofRat 9007199254740993) ∧
      Compared (.number (.integer 9007199254740993)) (.number (.double double)) .gt := by
  have exact : Number.extended? (.double (.finite false (9007199254740992 * unitsPerOne)
      (.of_whole (by decide)))) = some (.ofRat 9007199254740992) := by
    have nonzero : (unitsPerOne : Rat) ≠ 0 := Nat.cast_ne_zero.mpr unitsPerOne_pos.ne'
    have units : Double.signed false (9007199254740992 * unitsPerOne) =
        ((9007199254740992 * unitsPerOne : Nat) : Int) := rfl
    rw [Number.extended?, units, Int.cast_natCast, Nat.cast_mul, mul_div_cancel_right₀ _ nonzero,
      Nat.cast_ofNat]
  refine ⟨_, exact, rfl, ?_⟩
  refine comparisons_coherent.2.2.2.2.1 _ _ _ _ rfl exact .gt ?_
  exact ExtendedRat.ofRat_lt_ofRat.mpr (by decide)

end Value
end ScriptKit
