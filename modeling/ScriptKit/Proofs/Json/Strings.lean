import Mathlib.Data.List.TakeWhile
import ScriptKit.Json.Reader

/-!
Strings in JSON documents read back. Every character is written in ASCII: as itself, by a short escape,
by its code, or by two surrogates.
-/
namespace ScriptKit

/-- Four digits in base sixteen. -/
theorem Text.hexDigits_succ {width : Nat} (some : 0 < width) (value : Nat) :
    hexDigits (width + 1) value = hexDigits width (value / 16) ++ [(value % 16).digitChar] := by
  unfold hexDigits
  dsimp only
  rcases Nat.lt_or_ge value 16 with small | large
  · rw [Nat.toDigits_of_lt_base small, Nat.div_eq_of_lt small, Nat.mod_eq_of_lt small]
    have zero : Nat.toDigits 16 0 = ['0'] := rfl
    obtain ⟨less, rfl⟩ : ∃ less, width = less + 1 := ⟨width - 1, by omega⟩
    rw [zero]
    simp [List.replicate_succ']
  · rw [Nat.toDigits_of_base_le (by decide) large, List.length_append, List.length_singleton,
      Nat.add_sub_add_right, List.append_assoc]

theorem Text.hexDigits_four (small : value < 0x10000) :
    hexDigits 4 value = [(value / 4096).digitChar, (value / 256 % 16).digitChar,
      (value / 16 % 16).digitChar, (value % 16).digitChar] := by
  rw [hexDigits_succ (by decide), hexDigits_succ (by decide), hexDigits_succ (by decide)]
  have first : value / 16 / 16 / 16 < 16 := by omega
  have alone : hexDigits 1 (value / 16 / 16 / 16) = [(value / 4096).digitChar] := by
    unfold hexDigits
    rw [Nat.toDigits_of_lt_base first]
    simp [Nat.div_div_eq_div_mul]
  rw [alone]
  simp [Nat.div_div_eq_div_mul]

/-- The reading succeeds with a value and leaves the rest of its text. -/
def Gives {α : Type} {bound : Nat} (reading : Except JsonFault (JsonRead α bound)) (value : α)
    (rest : List Char) : Prop :=
  ∃ within, reading = .ok ⟨value, rest, within⟩

theorem Gives.bind {α β : Type} {bound bound' : Nat}
    {reading : Except JsonFault (JsonRead α bound)}
    {next : JsonRead α bound → Except JsonFault (JsonRead β bound')} {value' : β}
    {value : α} (first : Gives reading value rest)
    (others : ∀ within, Gives (next ⟨value, rest, within⟩) value' rest') :
    Gives (reading >>= next) value' rest' := by
  obtain ⟨within, rfl⟩ := first
  exact others within

namespace Text

theorem ofPoints_toPoints (text : String) : ofPoints (toPoints text) = .ok text := by
  have clear : ∀ point ∈ toPoints text, (!point.isHalf) = true := List.forall_mem_map.mpr fun _ _ => rfl
  rw [ofPoints, encodingFault?, List.dropWhile_eq_nil_iff.mpr clear, toPoints, List.filterMap_map]
  change Except.ok (String.ofList (text.toList.filterMap some)) = _
  rw [List.filterMap_some, String.ofList_toList]

end Text

namespace Json

open Text

private theorem hexValue?_digitChar (small : value < 16) :
    hexValue? value.digitChar = some value := by
  have each : ∀ value < 16, hexValue? (Nat.digitChar value) = some value := by decide
  exact each value small

private theorem readUnit?_hexDigits (small : unit < 0x10000) (next : Char) (rest : List Char) :
    readUnit? (hexDigits 4 unit ++ next :: rest) = some (unit, next :: rest) := by
  rw [hexDigits_four small]
  have value : ((unit / 4096 * 16 + unit / 256 % 16) * 16 + unit / 16 % 16) * 16 + unit % 16 =
      unit := by
    omega
  simp only [List.cons_append, List.nil_append, readUnit?, hexValue?_digitChar,
    show unit / 4096 < 16 by omega, Nat.mod_lt, Option.bind_eq_bind, Option.bind_some, value,
    Nat.zero_lt_succ]
  rfl

private theorem readUnit?_length_le (found : readUnit? text = some (unit, rest)) :
    5 ≤ text.length := by
  unfold readUnit? at found
  split at found
  · simp
  · cases found

section
variable {opening more : List Char} {value : List Point} {rest : List Char}

/-- A unit that is no first half of a pair stands by itself. -/
theorem readString_unit (found : readUnit? text = some (unit, more))
    (single : isHighSurrogate unit = false) (tail : Gives (readString opening more) value rest) :
    Gives (readString opening ('\\' :: 'u' :: text)) (.ofUnit unit :: value) rest := by
  rw [readString]
  split
  · rename_i missing
    cases missing.symm.trans found
  · rename_i present
    obtain ⟨rfl, rfl⟩ := Prod.mk.inj (Option.some.inj (present.symm.trans found))
    rw [if_neg (by simp [single])]
    exact tail.bind fun _ => ⟨_, rfl⟩
  · rename_i present
    obtain ⟨rfl, rfl⟩ := Prod.mk.inj (Option.some.inj (present.symm.trans found))
    exact tail.bind fun _ => ⟨_, rfl⟩

private theorem readString_pair (found : readUnit? text = some (high, '\\' :: 'u' :: pair))
    (isHigh : isHighSurrogate high = true) (found' : readUnit? pair = some (low, more))
    (isLow : isLowSurrogate low = true) (tail : Gives (readString opening more) value rest) :
    Gives (readString opening ('\\' :: 'u' :: text)) (.char (joinSurrogates high low) :: value) rest := by
  rw [readString]
  split
  · rename_i missing
    cases missing.symm.trans found
  · rename_i present
    obtain ⟨rfl, same⟩ := Prod.mk.inj (Option.some.inj (present.symm.trans found))
    obtain ⟨_, rfl⟩ := List.cons.inj (List.cons.inj same).2
    rw [if_pos (by simp [isHigh, readUnit?_length_le found'])]
    split
    · rename_i missing
      cases missing.symm.trans found'
    · rename_i present'
      obtain ⟨rfl, rfl⟩ := Prod.mk.inj (Option.some.inj (present'.symm.trans found'))
      rw [if_pos isLow]
      exact tail.bind fun _ => ⟨_, rfl⟩
  · rename_i other present
    obtain ⟨rfl, rfl⟩ := Prod.mk.inj (Option.some.inj (present.symm.trans found))
    exact (other _ rfl).elim

/-- A character that needs no escape. -/
theorem readString_plain (printable : ¬ char.toNat < 0x20) (unquoted : char ≠ '"')
    (unescaped : char ≠ '\\') (tail : Gives (readString opening more) value rest) :
    Gives (readString opening (char :: more)) (.char char :: value) rest := by
  rw [readString]
  · rw [if_neg printable]
    exact tail.bind fun _ => ⟨_, rfl⟩
  · exact unquoted
  · exact fun same _ => unescaped same
  · exact fun _ same _ => unescaped same
  · exact fun _ _ same _ => unescaped same

private theorem readString_escape (short : escaped? char = some plain)
    (tail : Gives (readString opening more) value rest) :
    Gives (readString opening ('\\' :: char :: more)) (.char plain :: value) rest := by
  rw [readString]
  · rw [short]
    exact tail.bind fun _ => ⟨_, rfl⟩
  · rintro rfl
    cases short

private theorem char_not_surrogate (char : Char) :
    char.toNat < 0xd800 ∨ 0xdfff < char.toNat ∧ char.toNat < 0x110000 :=
  char.valid

private theorem readString_unitEscape (small : char.toNat < 0x10000) (nonempty : more ≠ [])
    (tail : Gives (readString opening more) value rest) :
    Gives (readString opening (unitEscape char.toNat ++ more)) (.char char :: value) rest := by
  obtain ⟨next, others, rfl⟩ := List.exists_cons_of_ne_nil nonempty
  have valid := char_not_surrogate char
  have first : isHighSurrogate char.toNat = false := by
    simp [isHighSurrogate]
    omega
  have read := readString_unit (readUnit?_hexDigits small next others) first tail
  rwa [Point.ofUnit, if_neg (by omega), Char.ofNat_toNat] at read

private theorem readString_surrogates (small : high < 0x10000) (small' : low < 0x10000)
    (isHigh : isHighSurrogate high = true) (isLow : isLowSurrogate low = true) (nonempty : more ≠ [])
    (tail : Gives (readString opening more) value rest) :
    Gives (readString opening (unitEscape high ++ unitEscape low ++ more))
      (.char (joinSurrogates high low) :: value) rest := by
  obtain ⟨next, others, rfl⟩ := List.exists_cons_of_ne_nil nonempty
  rw [List.append_assoc]
  exact readString_pair (readUnit?_hexDigits small _ _) isHigh (readUnit?_hexDigits small' next others)
    isLow tail

private theorem readString_codeEscape (char : Char) (nonempty : more ≠ [])
    (tail : Gives (readString opening more) value rest) :
    Gives (readString opening (codeEscape char.toNat ++ more)) (.char char :: value) rest := by
  rcases Nat.lt_or_ge char.toNat 0x10000 with small | large
  · rw [codeEscape, if_pos small]
    exact readString_unitEscape small nonempty tail
  · have valid := char_not_surrogate char
    have same : 0x10000 + (char.toNat - 0x10000) = char.toNat := by omega
    generalize char.toNat - 0x10000 = offset at same
    have isHigh : isHighSurrogate (0xd800 + offset / 0x400) = true := by
      simp [isHighSurrogate]
      omega
    have isLow : isLowSurrogate (0xdc00 + offset % 0x400) = true := by
      simp [isLowSurrogate]
      omega
    have joined : joinSurrogates (0xd800 + offset / 0x400) (0xdc00 + offset % 0x400) = char := by
      have sum : 0x10000 + (0xd800 + offset / 0x400 - 0xd800) * 0x400 +
          (0xdc00 + offset % 0x400 - 0xdc00) = char.toNat := by
        omega
      rw [joinSurrogates, sum, Char.ofNat_toNat]
    have escape : codeEscape char.toNat =
        unitEscape (0xd800 + offset / 0x400) ++ unitEscape (0xdc00 + offset % 0x400) := by
      rw [codeEscape, if_neg (Nat.not_lt.mpr large), ← same, Nat.add_sub_cancel_left]
    have read := readString_surrogates (by omega) (by omega) isHigh isLow nonempty tail
    rwa [joined, ← escape] at read

/-- The three ways to write a character. -/
theorem jsonChar_true (char : Char) :
    (∃ mark, escaped? mark = some char ∧ jsonChar true char = ['\\', mark]) ∨
      jsonChar true char = codeEscape char.toNat ∨
      jsonChar true char = [char] ∧ ¬ char.toNat < 0x20 ∧ char.toNat ≤ 0x7e ∧ char ≠ '"' ∧
        char ≠ '\\' := by
  unfold jsonChar
  iterate 7
    split
    · rename_i same
      subst same
      exact .inl ⟨_, rfl, rfl⟩
  split
  · rename_i control
    exact .inr (.inl (by rw [codeEscape, if_pos (by omega)]))
  · split
    · exact .inr (.inl rfl)
    · rename_i printable plain
      exact .inr (.inr ⟨rfl, printable, by simpa using plain, by assumption, by assumption⟩)

private theorem readString_jsonChar (char : Char) (nonempty : more ≠ [])
    (tail : Gives (readString opening more) value rest) :
    Gives (readString opening (jsonChar true char ++ more)) (.char char :: value) rest := by
  rcases jsonChar_true char with ⟨mark, short, text⟩ | text | ⟨text, printable, _, unquoted, unescaped⟩
  · rw [text]
    exact readString_escape short tail
  · rw [text]
    exact readString_codeEscape char nonempty tail
  · rw [text]
    exact readString_plain printable unquoted unescaped tail

end

/-- A string is read up to its closing quote. -/
theorem readString_flatMap (opening text rest : List Char) :
    Gives (readString opening (text.flatMap (jsonChar true) ++ '"' :: rest)) (text.map .char)
      rest := by
  induction text with
  | nil =>
    rw [List.flatMap_nil, List.nil_append, readString]
    exact ⟨_, rfl⟩
  | cons char text ih =>
    rw [List.flatMap_cons, List.append_assoc]
    exact readString_jsonChar char (by simp) ih

end Json
end ScriptKit
