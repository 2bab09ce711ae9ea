import ScriptKit.Proofs.Json.RoundTrip
import ScriptKit.Proofs.Text.Plain

/-!
The indented text of a JSON document is in ASCII.
-/
namespace ScriptKit

/-- All characters are ASCII. -/
def Ascii (text : List Char) : Prop := ∀ char ∈ text, char.toNat < 0x80

instance : DecidablePred Ascii := List.decidableBAll fun char : Char => char.toNat < 0x80

namespace Ascii

theorem append {first second : List Char} : Ascii (first ++ second) ↔ Ascii first ∧ Ascii second :=
  List.forall_mem_append

theorem cons {char : Char} {text : List Char} :
    Ascii (char :: text) ↔ char.toNat < 0x80 ∧ Ascii text :=
  List.forall_mem_cons

theorem text_append {first second : String} :
    Ascii (first ++ second).toList ↔ Ascii first.toList ∧ Ascii second.toList := by
  rw [String.toList_append, append]

theorem of_digits (all : ∀ char ∈ digits, char.isDigit = true) : Ascii digits := by
  intro char member
  have digit := all char member
  simp only [Char.isDigit, Bool.and_eq_true, decide_eq_true_eq, UInt32.le_iff_toNat_le] at digit
  exact Nat.lt_of_le_of_lt digit.2 (by decide)

theorem digitChar (digit : Nat) : (Nat.digitChar digit).toNat < 0x80 := by
  rcases Nat.lt_or_ge digit 16 with small | large
  · have each : ∀ digit < 16, (Nat.digitChar digit).toNat < 0x80 := by decide
    exact each digit small
  · have star : Nat.digitChar digit = '*' := by
      unfold Nat.digitChar
      iterate 16 rw [if_neg (by omega)]
    rw [star]
    decide

theorem hexDigits (width value : Nat) : Ascii (Text.hexDigits width value) := by
  intro char member
  apply Decidable.byContradiction
  intro large
  refine Text.not_mem_hexDigits (fun digit same => large ?_) width value member
  rw [← same]
  exact digitChar digit

theorem unitEscape (unit : Nat) : Ascii (Text.unitEscape unit) :=
  append.mpr ⟨(by decide : Ascii ['\\', 'u']), hexDigits 4 unit⟩

theorem codeEscape (code : Nat) : Ascii (Text.codeEscape code) := by
  unfold Text.codeEscape
  split
  · exact unitEscape code
  · exact append.mpr ⟨unitEscape _, unitEscape _⟩

theorem jsonChar (char : Char) : Ascii (Text.jsonChar true char) := by
  rcases Json.jsonChar_true char with ⟨mark, short, text⟩ | text | ⟨text, _, small, _⟩
  · have ascii : mark.toNat < 0x80 := by
      unfold Json.escaped? at short
      split at short
      all_goals first
        | decide
        | cases short
    rw [text]
    exact cons.mpr ⟨by decide, cons.mpr ⟨ascii, nofun⟩⟩
  · rw [text]
    exact codeEscape char.toNat
  · rw [text]
    exact cons.mpr ⟨Nat.lt_of_le_of_lt small (by decide), nofun⟩

theorem jsonQuoted (text : String) : Ascii (Text.jsonQuoted true text).toList := by
  rw [← List.append_nil (Text.jsonQuoted true text).toList, Json.toList_quoted]
  refine cons.mpr ⟨by decide, append.mpr ⟨?_, by decide⟩⟩
  intro char member
  obtain ⟨plain, _, written⟩ := List.mem_flatMap.mp member
  exact jsonChar plain char written

theorem lineBreak (depth : Nat) : Ascii (Json.lineBreak depth).toList := by
  refine text_append.mpr ⟨by decide, ?_⟩
  rw [String.toList_ofList]
  intro char member
  rw [List.eq_of_mem_replicate member]
  decide

theorem minus (negative : Bool) : Ascii (Json.minus negative) := by
  cases negative <;> decide

theorem integerText (value : Int) : Ascii (toString value).toList := by
  rw [Json.toList_integerText]
  exact append.mpr ⟨minus _, of_digits (WholePart.toDigits value.natAbs).all⟩

theorem magnitudeText (fits : Representable units) : Ascii (magnitudeText units) := by
  by_cases scientific : 'e' ∈ ScriptKit.magnitudeText units
  · obtain ⟨first, others, point, significant, shape⟩ := magnitudeText_scientific fits scientific
    have digits := cons.mp (of_digits significant.all)
    have exponent : Ascii (exponentText (point - 1)) := by
      refine cons.mpr ⟨by decide, cons.mpr ⟨?_, append.mpr ⟨of_digits (zeros_digits _), ?_⟩⟩⟩
      · split <;> decide
      · exact of_digits (WholePart.toDigits _).all
    rw [shape]
    refine append.mpr ⟨cons.mpr ⟨digits.1, ?_⟩, exponent⟩
    split
    · decide
    · exact cons.mpr ⟨by decide, digits.2⟩
  · obtain ⟨whole, fraction, shape, _, all, all', _⟩ := magnitudeText_reads fits scientific
    rw [shape]
    exact append.mpr ⟨of_digits all, cons.mpr ⟨by decide, of_digits all'⟩⟩

theorem doubleText (value : Double) : Ascii (Json.doubleText value).toList := by
  cases value with
  | nan => decide
  | infinite negative => cases negative <;> decide
  | finite negative units fits =>
    rw [Json.toList_doubleText]
    exact append.mpr ⟨minus negative, magnitudeText fits⟩

theorem scalarText (json : Json) : Ascii json.scalarText.toList := by
  cases json with
  | boolean value => cases value <;> decide
  | integer value => exact integerText value
  | double value => exact doubleText value
  | string value => exact jsonQuoted value
  | loose value =>
    change Ascii (String.ofList _).toList
    rw [String.toList_ofList]
    refine cons.mpr ⟨by decide, append.mpr ⟨fun char member => ?_, by decide⟩⟩
    obtain ⟨point, _, written⟩ := List.mem_flatMap.mp member
    cases point with
    | char plain => exact jsonChar plain char written
    | half offset => exact unitEscape _ char written
  | null => decide
  | array items => exact (by decide : Ascii "[]".toList)
  | object fields => exact (by decide : Ascii "\x7b\x7d".toList)

mutual

theorem indented (depth : Nat) : (json : Json) → Ascii (json.indented depth).toList
  | .array [] => by
    rw [Json.indented_array_nil]
    decide
  | .array (item :: items) => by
    have first := indented (depth + 1) item
    have others := indentedItems (depth + 1) items
    rw [← List.append_nil (Json.indented depth _).toList, Json.toList_array]
    simp only [append, cons, first, others, lineBreak]
    decide
  | .object [] => by
    rw [Json.indented_object_nil]
    decide
  | .object ((key, value) :: fields) => by
    have first := indented (depth + 1) value
    have others := indentedFields (depth + 1) fields
    rw [← List.append_nil (Json.indented depth _).toList, Json.toList_object]
    simp only [append, cons, first, others, lineBreak, jsonQuoted]
    decide
  | .null => scalarText .null
  | .boolean value => scalarText (.boolean value)
  | .integer value => scalarText (.integer value)
  | .double value => scalarText (.double value)
  | .string value => scalarText (.string value)
  | .loose value => scalarText (.loose value)

theorem indentedItems (depth : Nat) : (items : List Json) → Ascii (Json.indentedItems depth items).toList
  | [] => (by decide : Ascii "".toList)
  | item :: items => by
    have first := indented depth item
    have others := indentedItems depth items
    rw [← List.append_nil (Json.indentedItems depth _).toList, Json.toList_items]
    simp only [append, cons, first, others, lineBreak]
    decide

theorem indentedFields (depth : Nat) : (fields : List (String × Json)) →
    Ascii (Json.indentedFields depth fields).toList
  | [] => (by decide : Ascii "".toList)
  | (key, value) :: fields => by
    have first := indented depth value
    have others := indentedFields depth fields
    rw [← List.append_nil (Json.indentedFields depth _).toList, Json.toList_fields]
    simp only [append, cons, first, others, lineBreak, jsonQuoted]
    decide

end

end Ascii

end ScriptKit
