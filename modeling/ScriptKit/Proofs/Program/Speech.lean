import ScriptKit.Proofs.Number.Reading
import ScriptKit.Proofs.Program.Code
import ScriptKit.Proofs.Text.Quoted

/-!
What emitted names and literals are read as. A name is read as itself. So are the truth values, the
integers, the doubles that are written without an exponent, and the strings in which nothing is
escaped.
-/
namespace ScriptKit

def Double.isFinite : Double → Bool
  | .finite .. => true
  | _ => false

/-- Written the same way in source and emitted text: no word that prints or imports, no double that is
infinite or has an exponent, no string with a character that is escaped. -/
def Lexeme.Common : Lexeme → Prop
  | .number (.double value) => value.isFinite = true ∧ 'e' ∉ (Json.doubleText value).toList
  | .string text => ∀ char ∈ text.toList, char ≠ '\\' ∧ 0x20 ≤ char.toNat
  | .keyword word => word ≠ .printWord ∧ word ≠ .importWord
  | _ => True

theorem lexes_name (written : (Lexeme.identifier name).Written) :
    Lexes refusable Apart name [.identifier name] := by
  obtain ⟨text, spelled, preferred, fits⟩ := written
  cases spelled with
  | @name first others start all =>
    refine Lexeme.Spelled.lexes ?_ preferred ?_
    · rw [String.toList_ofList]
      exact .name start all
    · rw [String.toList_ofList]
      exact fun tooLong => absurd tooLong fits

theorem lexes_boolean (value : Bool) :
    Lexes refusable Apart (Literal.boolean value).emit [.boolean value] := by
  cases value with
  | true => exact Lexeme.Spelled.truth.lexes nofun fun tooLong => absurd tooLong.2 (by decide)
  | false => exact Lexeme.Spelled.falsehood.lexes nofun fun tooLong => absurd tooLong.2 (by decide)

theorem toString_natCast (value : Nat) :
    (toString (value : Int)).toList = Nat.toDigits 10 value := by
  rw [Int.toString_eq_repr, Int.repr_eq_if]
  simp

/-- An integer that was read is spelled by its digits, which are no more than were read. -/
theorem spelled_integer (written : (Lexeme.number (.integer value)).Written) :
    (Lexeme.number (.integer value)).Spelled (toString value).toList ∧
      ¬ Oversized (toString value).toList := by
  obtain ⟨text, spelled, preferred, fits⟩ := written
  cases spelled with
  | integer nonempty all =>
    have shorter := digitCount_le nonempty all
    have digits : ∀ char ∈ Nat.toDigits 10 (natOfDigits text), char.isDigit = true :=
      fun char => Nat.isDigit_of_mem_toDigits (by decide) (by decide)
    have spelled := Lexeme.Spelled.integer Nat.toDigits_ne_nil digits
    rw [natOfDigits_toDigits] at spelled
    rw [toString_natCast]
    refine ⟨spelled, fun tooLong => absurd ⟨all, ?_⟩ fits⟩
    exact Nat.lt_of_lt_of_le tooLong.2 shorter

theorem lexes_integer (written : (Lexeme.number (.integer value)).Written) :
    Lexes refusable Apart (toString value) [.number (.integer value)] := by
  obtain ⟨spelled, fits⟩ := spelled_integer written
  exact spelled.lexes nofun fun tooLong => absurd tooLong fits

theorem Decimal.toDouble_negative
    (same : Decimal.toDouble negative decimal = .finite negative' units fits) :
    negative' = negative := by
  unfold Decimal.toDouble at same
  dsimp only at same
  split at same
  · exact (Double.finite.inj same).1.symm
  · split at same
    · cases same
    · unfold Double.ofRatio at same
      split at same
      · exact (Double.finite.inj same).1.symm
      · cases same

/-- A double that was read has no sign. -/
theorem exists_magnitude (written : (Lexeme.number (.double value)).Written)
    (finite : value.isFinite = true) :
    ∃ units fits, value = .finite false units fits ∧
      (Json.doubleText value).toList = magnitudeText units := by
  obtain ⟨text, spelled, _, _⟩ := written
  cases value with
  | nan => cases finite
  | infinite negative => cases finite
  | finite negative units fits =>
    have positive : negative = false := by
      generalize same : Double.finite negative units fits = value at spelled
      cases spelled with
      | decimal => exact Decimal.toDouble_negative same.symm
    subst positive
    refine ⟨units, fits, rfl, ?_⟩
    rw [Json.doubleText, Double.toText, String.toList_ofList]
    rfl

theorem spelled_magnitude (fits : Representable units) (plain : 'e' ∉ magnitudeText units) :
    (Lexeme.number (.double (.finite false units fits))).Spelled (magnitudeText units) ∧
      ¬ Oversized (magnitudeText units) := by
  obtain ⟨whole, fraction, shape, nonempty, all, all', reads⟩ := magnitudeText_reads fits plain
  have spelled := Lexeme.Spelled.decimal nonempty all all'
  rw [reads, ← shape] at spelled
  refine ⟨spelled, fun ⟨digits, _⟩ => ?_⟩
  have point := digits '.' (by rw [shape]; simp)
  cases point

private theorem lexes_double (written : (Lexeme.number (.double value)).Written)
    (common : (Lexeme.number (.double value)).Common) :
    Lexes refusable Apart (Json.doubleText value) [.number (.double value)] := by
  obtain ⟨finite, plain⟩ := common
  obtain ⟨units, fits, rfl, chars⟩ := exists_magnitude written finite
  rw [chars] at plain
  obtain ⟨spelled, short⟩ := spelled_magnitude fits plain
  rw [← chars] at spelled short
  exact spelled.lexes nofun fun tooLong => absurd tooLong short

private theorem jsonChar_common {char : Char} (unquoted : char ≠ '"')
    (plain : char ≠ '\\' ∧ 0x20 ≤ char.toNat) : Text.jsonChar false char = [char] := by
  have other (control : Char) (small : control.toNat < 0x20) : char ≠ control := by
    rintro rfl
    omega
  simp [Text.jsonChar, unquoted, plain.1, other '\n' (by decide), other '\r' (by decide),
    other '\t' (by decide), other '\x08' (by decide), other '\x0c' (by decide),
    Nat.not_lt.mpr plain.2]

private theorem flatMap_jsonChar {body : List Char} (unquoted : '"' ∉ body)
    (common : ∀ char ∈ body, char ≠ '\\' ∧ 0x20 ≤ char.toNat) :
    body.flatMap (Text.jsonChar false) = body := by
  induction body with
  | nil => rfl
  | cons char body ih =>
    have first : char ≠ '"' := by
      rintro rfl
      exact unquoted List.mem_cons_self
    rw [List.flatMap_cons, jsonChar_common first (common char List.mem_cons_self),
      ih (fun member => unquoted (List.mem_cons_of_mem char member))
        fun other member => common other (List.mem_cons_of_mem char member)]
    rfl

private theorem lexes_string (written : (Lexeme.string value).Written)
    (common : (Lexeme.string value).Common) :
    Lexes refusable Apart (Text.jsonQuoted false value) [.string value] := by
  obtain ⟨text, spelled, preferred, fits⟩ := written
  cases spelled with
  | @string body unquoted =>
    rw [Lexeme.Common, String.toList_ofList] at common
    have chars : (Text.jsonQuoted false (String.ofList body)).toList = '"' :: (body ++ ['"']) := by
      rw [Text.toList_jsonQuoted, flatMap_jsonChar unquoted common]
    refine Lexeme.Spelled.lexes ?_ preferred ?_
    · rw [chars]
      exact .string unquoted
    · rw [chars]
      exact fun tooLong => absurd tooLong fits

/-- A literal as one lexeme. -/
def Literal.phrase (value : Literal) : List Lexeme := [value.lexeme]

/-- Names and common literals are read as themselves. -/
theorem speech_common :
    Speech (scanner refusable) (fun lexeme => lexeme.Written ∧ lexeme.Common) Literal.phrase where
  name _ := fun ⟨written, _⟩ => lexes_name written
  literal
    | .boolean value, _ => lexes_boolean value
    | .number (.integer _), ⟨written, _⟩ => lexes_integer written
    | .number (.double _), ⟨written, common⟩ => lexes_double written common
    | .string _, ⟨written, common⟩ => lexes_string written common

end ScriptKit
