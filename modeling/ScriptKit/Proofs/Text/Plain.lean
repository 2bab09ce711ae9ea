import ScriptKit.Emission
import ScriptKit.Text.Utf8

/-!
Texts without carriage returns. They come back unchanged from a file, where other texts come back
with their lines ended differently. All that emission writes by itself is of this kind.
-/
namespace ScriptKit

namespace Text

def Plain (text : String) : Prop := '\r' ∉ text.toList

instance (text : String) : Decidable (Plain text) :=
  inferInstanceAs (Decidable ('\r' ∉ text.toList))

theorem plain_append {text more : String} : Plain (text ++ more) ↔ Plain text ∧ Plain more := by
  unfold Plain
  rw [String.toList_append, List.mem_append, not_or]

theorem plain_ofList {chars : List Char} : Plain (String.ofList chars) ↔ '\r' ∉ chars := by
  unfold Plain
  rw [String.toList_ofList]

theorem plain_intercalate {separator : String} {texts : List String} (plain : Plain separator)
    (all : ∀ text ∈ texts, Plain text) : Plain (separator.intercalate texts) := by
  match texts with
  | [] => exact (by decide : Plain "")
  | [text] =>
    rw [String.intercalate_singleton]
    exact all text List.mem_cons_self
  | text :: next :: rest =>
    have following := plain_intercalate plain fun other member =>
      all other (List.mem_cons_of_mem text member)
    rw [String.intercalate_cons_cons, plain_append, plain_append]
    exact ⟨⟨all text List.mem_cons_self, plain⟩, following⟩

private theorem unifyLines_plain (chars : List Char) : '\r' ∉ unifyLines chars := by
  fun_induction unifyLines chars <;> grind

theorem unifyLines_append {front back : List Char} (plain : '\r' ∉ front) :
    unifyLines (front ++ back) = front ++ unifyLines back := by
  induction front with
  | nil => rfl
  | cons char front ih =>
    have other : char ≠ '\r' := by
      rintro rfl
      exact plain List.mem_cons_self
    have rest := ih fun member => plain (List.mem_cons_of_mem char member)
    rw [List.cons_append, unifyLines, rest, List.cons_append]
    · rintro _ rfl
      exact absurd rfl other
    · exact other

private theorem unifyLines_eq {chars : List Char} (plain : '\r' ∉ chars) :
    unifyLines chars = chars := by
  have whole : unifyLines (chars ++ []) = chars ++ unifyLines [] := unifyLines_append plain
  rwa [unifyLines, List.append_nil] at whole

theorem plain_of_ofFile {bytes : ByteArray} {text : String} (found : ofFile bytes = .ok text) :
    Plain text := by
  unfold ofFile at found
  cases decoded : decode bytes with
  | error fault =>
    rw [decoded] at found
    cases found
  | ok whole =>
    rw [decoded] at found
    cases found
    exact plain_ofList.mpr (unifyLines_plain whole.toList)

theorem decode_toUTF8 (text : String) : decode text.toUTF8 = .ok text := by
  have found : String.fromUTF8? text.toUTF8 = some text := dif_pos text.isValidUTF8
  rw [decode, found]

theorem ofFile_toUTF8 {text : String} (plain : Plain text) : ofFile text.toUTF8 = .ok text := by
  unfold ofFile
  rw [decode_toUTF8]
  exact congrArg Except.ok (by rw [unifyLines_eq plain, String.ofList_toList])

private theorem digitChar_ne_return (digit : Nat) : Nat.digitChar digit ≠ '\r' := by
  grind [Nat.digitChar]

private theorem mem_toDigitsCore {base fuel value : Nat} {digits : List Char} {char : Char}
    (member : char ∈ Nat.toDigitsCore base fuel value digits) :
    char ∈ digits ∨ ∃ digit, char = Nat.digitChar digit := by
  induction fuel generalizing value digits with
  | zero => exact .inl member
  | succ fuel ih =>
    have last (rest : char ∈ Nat.digitChar (value % base) :: digits) :
        char ∈ digits ∨ ∃ digit, char = Nat.digitChar digit := by
      rcases List.mem_cons.mp rest with same | member
      · exact .inr ⟨_, same⟩
      · exact .inl member
    rw [Nat.toDigitsCore] at member
    split at member
    · exact last member
    · rcases ih member with rest | found
      · exact last rest
      · exact .inr found

private theorem not_mem_toDigits (other : ∀ digit, Nat.digitChar digit ≠ char) (base value : Nat) :
    char ∉ Nat.toDigits base value := by
  intro member
  rcases mem_toDigitsCore member with none | ⟨digit, same⟩
  · cases none
  · exact other digit same.symm

private theorem toDigits_plain (base value : Nat) : '\r' ∉ Nat.toDigits base value :=
  not_mem_toDigits digitChar_ne_return base value

theorem not_mem_hexDigits (other : ∀ digit, Nat.digitChar digit ≠ char) (width value : Nat) :
    char ∉ hexDigits width value := by
  have digits := not_mem_toDigits other 16 value
  have zero : '0' ≠ char := other 0
  simp [hexDigits, digits, zero.symm]

private theorem hexDigits_plain (width value : Nat) : '\r' ∉ hexDigits width value :=
  not_mem_hexDigits digitChar_ne_return width value

private theorem plain_jsonQuoted (text : String) : Plain (jsonQuoted false text) := by
  have char (given : Char) : '\r' ∉ jsonChar false given := by
    have hex := hexDigits_plain 4 given.toNat
    unfold jsonChar unitEscape
    repeat' split
    all_goals grind
  rw [jsonQuoted, plain_ofList]
  simp [char]

end Text

open Text

private theorem zeros_plain (count : Nat) : '\r' ∉ zeros count := by
  simp [zeros]

private theorem exponentText_plain (exponent : Int) : '\r' ∉ exponentText exponent := by
  have digits := toDigits_plain 10 exponent.natAbs
  have padding := zeros_plain (2 - (Nat.toDigits 10 exponent.natAbs).length)
  unfold exponentText
  grind

private theorem placedText_plain {digits : List Char} (plain : '\r' ∉ digits) (point : Int) :
    '\r' ∉ placedText digits point := by
  have padding := zeros_plain
  have exponent := exponentText_plain (point - 1)
  have whole : '\r' ∉ digits.take point.toNat := fun member => plain (List.mem_of_mem_take member)
  have fraction : '\r' ∉ digits.drop point.toNat := fun member => plain (List.mem_of_mem_drop member)
  unfold placedText
  grind

private theorem magnitudeText_plain (units : Nat) : '\r' ∉ magnitudeText units := by
  unfold magnitudeText
  split
  · decide
  · refine placedText_plain (fun member => ?_) _
    have kept := (List.dropWhile_sublist _).subset (List.mem_reverse.mp member)
    exact toDigits_plain 10 _ (List.mem_reverse.mp kept)

private theorem plain_doubleText (value : Double) : Plain (Json.doubleText value) := by
  cases value with
  | nan => decide
  | infinite negative => cases negative <;> decide
  | finite negative units representable =>
    have magnitude := magnitudeText_plain units
    refine plain_ofList.mpr ?_
    cases negative <;> simp [magnitude]

private theorem plain_integerText (value : Int) : Plain (toString value) := by
  have natural (value : Nat) : Plain value.repr := by
    unfold Plain
    rw [Nat.toList_repr]
    exact toDigits_plain 10 value
  cases value with
  | ofNat value => exact natural value
  | negSucc value => exact plain_append.mpr ⟨by decide, natural (value + 1)⟩

theorem Literal.plain_emit (value : Literal) : Plain value.emit := by
  cases value with
  | boolean value => cases value <;> decide
  | number value =>
    cases value with
    | integer value => exact plain_integerText value
    | double value => exact plain_doubleText value
  | string value => exact plain_jsonQuoted value

end ScriptKit
