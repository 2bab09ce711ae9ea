import ScriptKit.Json.Reader
import ScriptKit.Proofs.Token.Spelling

/-!
Integers that are too long to read. A reader leaves an end of its text, and it refuses an integer for
its size only over a run of digits in the text that is longer than the limit.
-/
namespace ScriptKit.Json

variable {limit : Option Nat} {text more : List Char} {α β : Type} {bound bound' : Nat}

/-- What came of reading lies in the text. -/
def Grounded (limit : Option Nat) (text : List Char) : Except JsonFault (JsonRead α bound) → Prop
  | .ok read => read.rest <:+ text
  | .error (.unreadable _ _) => True
  | .error (.oversizedInteger digits) => ∃ run, run <:+: text ∧ run.length = digits ∧
      (∀ char ∈ run, char.isDigit = true) ∧ ∃ size ∈ limit, size < digits

namespace Grounded

theorem widen {result : Except JsonFault (JsonRead α bound)} (grounded : Grounded limit text result)
    (within : text <:+ more) : Grounded limit more result := by
  rcases result with (_ | digits) | read
  · trivial
  · obtain ⟨run, inside, whole⟩ := grounded
    exact ⟨run, inside.trans within.isInfix, whole⟩
  · exact grounded.trans within

theorem bind {first : Except JsonFault (JsonRead α bound)}
    {next : JsonRead α bound → Except JsonFault (JsonRead β bound')}
    (grounded : Grounded limit text first)
    (following : ∀ read, read.rest <:+ text → Grounded limit text (next read)) :
    Grounded limit text (first >>= next) := by
  rcases first with (_ | digits) | read
  · trivial
  · exact grounded
  · exact following read grounded

end Grounded

private theorem readUnit?_suffix {unit : Nat} {rest : List Char}
    (found : readUnit? text = some (unit, rest)) : rest <:+ text := by
  unfold readUnit? at found
  split at found
  · simp only [Option.bind_eq_bind, Option.pure_def, Option.bind_eq_some_iff, Option.some.injEq,
      Prod.mk.injEq] at found
    obtain ⟨_, _, _, _, _, _, _, _, _, rfl⟩ := found
    exact ⟨[_, _, _, _], rfl⟩
  · contradiction

private theorem readString_grounded (opening text : List Char) :
    Grounded limit text (readString opening text) := by
  fun_induction readString opening text with
  | case1 | case3 | case4 | case5 | case10 | case12 => trivial
  | case2 rest => exact List.suffix_cons _ _
  | case6 rest unit pair found _ _ low after foundLow _ _ following =>
    have within := (List.suffix_append ['\\', 'u'] _).trans (readUnit?_suffix found)
    have within' := (readUnit?_suffix foundLow).trans within
    exact (following.widen (within'.trans (List.suffix_append ['\\', 'u'] _))).bind fun _ => id
  | case7 rest unit pair found _ _ low after _ _ _ following
  | case8 rest unit pair found _ _ following
  | case9 rest unit after _ found _ following =>
    have within := (readUnit?_suffix found).trans (List.suffix_append ['\\', 'u'] _)
    exact (following.widen within).bind fun _ => id
  | case11 char rest _ _ _ following =>
    exact (following.widen (List.suffix_append ['\\', char] _)).bind fun _ => id
  | case13 char rest _ _ _ _ _ following =>
    exact (following.widen (List.suffix_cons _ _)).bind fun _ => id

private theorem readFraction?_suffix (found : readFraction? text = some (digits, rest)) :
    rest <:+ text := by
  unfold readFraction? at found
  split at found
  · dsimp only at found
    split at found
    · cases found
    · cases found
      exact (List.dropWhile_suffix _).trans (List.suffix_cons _ _)
  · cases found

private theorem readExponent?_suffix (found : readExponent? text = some (exponent, rest)) :
    rest <:+ text := by
  unfold readExponent? at found
  split at found
  · cases found
  · rename_i mark following
    split at found
    · dsimp only at found
      generalize signless : (if following.head? = some '-' ∨ following.head? = some '+' then
        following.drop 1 else following) = digits at found
      have within : digits <:+ following := by
        rw [← signless]
        split
        · exact List.drop_suffix _ _
        · exact List.suffix_refl _
      split at found
      · cases found
      · cases found
        exact ((List.dropWhile_suffix _).trans within).trans (List.suffix_cons _ _)
    · cases found

/-- The digits of a whole part stand at the start of the text. -/
theorem readWhole?_eq (found : readWhole? text = some (whole, rest)) :
    text = whole ++ rest ∧ ∀ char ∈ whole, char.isDigit = true := by
  unfold readWhole? at found
  split at found
  · cases found
  · rename_i digit following
    split at found
    · rename_i zero
      cases found
      exact ⟨rfl, by simp [zero]⟩
    · split at found
      · rename_i isDigit
        cases found
        refine ⟨by simp, List.forall_mem_cons.mpr ⟨isDigit, fun char member => ?_⟩⟩
        exact List.all_eq_true.mp List.all_takeWhile char member
      · cases found

private theorem readNumber?_cases (read : readNumber? limit text = some (outcome, rest)) :
    (rest <:+ text ∧ ∃ value, outcome = .ok value) ∨
      ∃ run, run <:+: text ∧ (∀ char ∈ run, char.isDigit = true) ∧
        outcome = .error (.oversizedInteger run.length) ∧ ∃ size ∈ limit, size < run.length := by
  unfold readNumber? at read
  simp only [Option.bind_eq_bind, Option.bind_eq_some_iff] at read
  obtain ⟨⟨whole, afterWhole⟩, found, read⟩ := read
  obtain ⟨start, digits⟩ := readWhole?_eq found
  have inside : whole ++ afterWhole <:+ text := by
    rw [← start]
    split
    · exact List.drop_suffix _ _
    · exact List.suffix_refl _
  have unread : afterWhole <:+ text := (List.suffix_append _ _).trans inside
  dsimp only at read
  generalize fractionRead : readFraction? afterWhole = fraction at read
  have unread' : (fraction.map Prod.snd).getD afterWhole <:+ text := by
    cases fraction with
    | none => exact unread
    | some pair => exact (readFraction?_suffix fractionRead).trans unread
  generalize exponentRead : readExponent? ((fraction.map Prod.snd).getD afterWhole) = exponent at read
  have left : (exponent.map Prod.snd).getD ((fraction.map Prod.snd).getD afterWhole) <:+ text := by
    cases exponent with
    | none => exact unread'
    | some pair => exact (readExponent?_suffix exponentRead).trans unread'
  split at read
  · split at read
    · rename_i long
      cases read
      cases limit with
      | none => cases long
      | some size =>
        exact .inr ⟨whole, (List.infix_append [] whole afterWhole).trans inside.isInfix, digits, rfl,
          size, rfl, of_decide_eq_true long⟩
    · cases read
      exact .inl ⟨left, _, rfl⟩
  · cases read
    exact .inl ⟨left, _, rfl⟩

private theorem readScalar_grounded (limit : Option Nat) (text : List Char) :
    Grounded limit text (readScalar limit text) := by
  unfold readScalar
  dsimp only
  split
  · rename_i fault result
    split at result
    · cases result
    · cases result
    · rename_i read
      cases result
      rcases readNumber?_cases read with ⟨_, _, impossible⟩ | ⟨run, inside, digits, same, long⟩
      · cases impossible
      · cases same
        exact ⟨run, inside, rfl, digits, long⟩
    · cases result
      trivial
  · rename_i value rest result
    split
    · change rest <:+ text
      split at result
      · cases result
        exact List.drop_suffix _ _
      · rename_i read
        cases result
        rcases readNumber?_cases read with ⟨within, _⟩ | ⟨_, _, _, impossible, _⟩
        · exact within
        · cases impossible
      · cases result
      · cases result
    · trivial

private theorem skipGap_suffix (text : List Char) : skipGap text <:+ text := List.dropWhile_suffix _

private theorem suffix_of_skipGap (gap : skipGap text = char :: rest) : rest <:+ text :=
  (List.suffix_cons char rest).trans (gap ▸ skipGap_suffix text)

mutual

theorem readValue_grounded (limit : Option Nat) (text : List Char) :
    Grounded limit text (readValue limit text) := by
  rw [readValue.eq_def]
  split
  · rename_i rest
    exact ((readString_grounded _ rest).widen (List.suffix_cons _ _)).bind fun _ => id
  · rename_i rest
    have body := (skipGap_suffix rest).trans (List.suffix_cons '\x7b' _)
    split
    · rename_i after gap
      exact (suffix_of_skipGap gap).trans (List.suffix_cons _ _)
    · exact ((readFields_grounded limit [] (skipGap rest)).widen body).bind fun _ => id
  · rename_i rest
    have body := (skipGap_suffix rest).trans (List.suffix_cons '[' _)
    split
    · rename_i after gap
      exact (suffix_of_skipGap gap).trans (List.suffix_cons _ _)
    · exact ((readItems_grounded limit (skipGap rest)).widen body).bind fun _ => id
  · exact readScalar_grounded limit _
termination_by (text.length, 0)
decreasing_by all_goals grind

theorem readItems_grounded (limit : Option Nat) (text : List Char) :
    Grounded limit text (readItems limit text) := by
  rw [readItems.eq_def]
  refine (readValue_grounded limit text).bind fun item within => ?_
  split
  · rename_i after gap
    exact (suffix_of_skipGap gap).trans within
  · rename_i after gap
    have rest := ((skipGap_suffix after).trans (suffix_of_skipGap gap)).trans within
    exact ((readItems_grounded limit (skipGap after)).widen rest).bind fun _ => id
  · trivial
termination_by (text.length, 1)
decreasing_by all_goals grind

theorem readFields_grounded (limit : Option Nat) (fields : List (String × Json)) (text : List Char) :
    Grounded limit text (readFields limit fields text) := by
  rw [readFields.eq_def]
  split
  · rename_i rest
    refine ((readString_grounded _ rest).widen (List.suffix_cons _ _)).bind fun key within => ?_
    split
    · rename_i afterColon colon
      have rest' := ((skipGap_suffix afterColon).trans (suffix_of_skipGap colon)).trans within
      refine ((readValue_grounded limit (skipGap afterColon)).widen rest').bind fun value within => ?_
      dsimp only
      split
      · rename_i after gap
        exact (suffix_of_skipGap gap).trans within
      · rename_i after gap
        have rest' := ((skipGap_suffix after).trans (suffix_of_skipGap gap)).trans within
        exact ((readFields_grounded limit _ (skipGap after)).widen rest').bind fun _ => id
      · trivial
    · trivial
  · trivial
termination_by (text.length, 1)
decreasing_by all_goals grind

end

end ScriptKit.Json
