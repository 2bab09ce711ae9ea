import Mathlib.Data.List.Forall2
import ScriptKit.Proofs.Program.Speech

/-!
The words of emitted text. It is divided at spaces, punctuation and quotes; every word stands for one
lexeme, and for no other.
-/
namespace ScriptKit

/-- The characters that are words by themselves. -/
def isMark (char : Char) : Bool := ['(', ')', '\x7b', '\x7d', ';', ','].contains char

/-- The characters that no word goes on with. -/
def isBreak (char : Char) : Bool := isSpace char || char == '"' || isMark char

/-- Nothing in the word ends it. -/
def isWhole (word : List Char) : Bool := word.all (!isBreak ·)

/-- The words of a text. Spaces are none of them, and what stands between quotes is a single one. -/
def words : List Char → List (List Char)
  | [] => []
  | char :: rest =>
    if isSpace char then words rest
    else if char = '"' then
      ('"' :: (rest.takeWhile (· != '"') ++ ['"'])) :: words ((rest.dropWhile (· != '"')).drop 1)
    else if isMark char then [char] :: words rest
    else (char :: rest.takeWhile (!isBreak ·)) :: words (rest.dropWhile (!isBreak ·))
termination_by source => source.length
decreasing_by
  · simp
  · have shorter := (rest.dropWhile_suffix (· != '"')).length_le
    simp only [List.length_drop, List.length_cons]
    omega
  · simp
  · exact Nat.lt_succ_of_le (rest.dropWhile_suffix _).length_le

private theorem isWhole_iff : isWhole word = true ↔ ∀ char ∈ word, isBreak char = false := by
  simp [isWhole]

section
variable {rest : List Char}

private theorem words_space (blank : isSpace char = true) : words (char :: rest) = words rest := by
  rw [words, if_pos blank]

private theorem words_quoted {body : List Char} (unquoted : '"' ∉ body) :
    words ('"' :: (body ++ '"' :: rest)) = ('"' :: (body ++ ['"'])) :: words rest := by
  have inner : ∀ char ∈ body, (char != '"') = true := by
    intro char member
    simp only [bne_iff_ne]
    rintro rfl
    exact unquoted member
  obtain ⟨taken, dropped⟩ := takeWhile_stop inner (by decide : ('"' != '"') = false) rest
  rw [words, if_neg (by decide), if_pos rfl, taken, dropped]
  rfl

private theorem words_mark (alone : sign ∈ marks) :
    words (sign.text.toList ++ rest) = sign.text.toList :: words rest := by
  have single : ∃ char, sign.text.toList = [char] ∧
      isSpace char = false ∧ char ≠ '"' ∧ isMark char = true := by
    simp only [marks, List.mem_cons, List.not_mem_nil, or_false] at alone
    rcases alone with rfl | rfl | rfl | rfl | rfl | rfl <;>
      exact ⟨_, rfl, by decide, by decide, by decide⟩
  obtain ⟨char, shape, solid, unquoted, marked⟩ := single
  rw [shape, List.singleton_append, words, if_neg (by simp [solid]), if_neg unquoted, if_pos marked]

/-- The rest does not go on with a word before it. -/
def Broken (rest : List Char) : Prop := ∀ char ∈ rest.head?, isBreak char = true

private theorem words_word {text : List Char} (nonempty : text ≠ []) (whole : isWhole text = true)
    (broken : Broken rest) : words (text ++ rest) = text :: words rest := by
  obtain ⟨first, others, rfl⟩ := List.exists_cons_of_ne_nil nonempty
  obtain ⟨start, inner⟩ := List.forall_mem_cons.mp (isWhole_iff.mp whole)
  have unbroken : ∀ char ∈ others, (!isBreak char) = true := by simpa using inner
  have none : rest.takeWhile (!isBreak ·) = [] ∧ rest.dropWhile (!isBreak ·) = rest := by
    cases rest with
    | nil => exact ⟨rfl, rfl⟩
    | cons char rest => simp [broken char rfl]
  simp only [isBreak, Bool.or_eq_false_iff, beq_eq_false_iff_ne] at start
  obtain ⟨⟨solid, unquoted⟩, unmarked⟩ := start
  rw [List.cons_append, words, if_neg (by simp [solid]), if_neg unquoted, if_neg (by simp [unmarked]),
    List.takeWhile_append_of_pos unbroken, List.dropWhile_append_of_pos unbroken, none.1, none.2,
    List.append_nil]

end

/-- `lexeme.Emitted word`: the word stands for the lexeme. Strings are quoted, what prints is a word of
its own, and a number may have an exponent; all else is spelled as in the language. -/
def Lexeme.Emitted (lexeme : Lexeme) (word : List Char) : Prop :=
  if word.head? = some '"' then
    ∃ body, '"' ∉ body ∧ lexeme = .string (String.ofList body) ∧
      word = '"' :: (body.flatMap (Text.jsonChar false) ++ ['"'])
  else if word = "console.log".toList then lexeme = .keyword .printWord
  else if 'e' ∈ word ∧ word.head?.any Char.isDigit = true then
    ∃ units fits, lexeme = .number (.double (.finite false units fits)) ∧ word = magnitudeText units
  else lexeme.Spelled word ∧ lexeme.Preferred ∧ ¬ Oversized word

/-- The scanner reads a text as one lexeme only. -/
theorem Lexeme.Spelled.unique {lexeme lexeme' : Lexeme} {text : List Char}
    (spelled : lexeme.Spelled text) (spelled' : lexeme'.Spelled text) (preferred : lexeme.Preferred)
    (preferred' : lexeme'.Preferred) (fits : ¬ Oversized text) : lexeme = lexeme' := by
  obtain ⟨terminal, length, found, _, alone, reads⟩ := spelled.scanned []
  obtain ⟨terminal', length', found', _, alone', reads'⟩ := spelled'.scanned []
  obtain ⟨rfl, rfl⟩ := Prod.mk.inj (Option.some.inj (found.symm.trans found'))
  have ended : Apart [] := by decide
  have read := reads (alone ended) preferred fits
  rw [reads' (alone ended) preferred' fits] at read
  exact (Except.ok.inj read).symm

/-- No word stands for two lexemes. -/
theorem Lexeme.emitted_leftUnique : Relator.LeftUnique Lexeme.Emitted := by
  intro lexeme lexeme' word emitted emitted'
  unfold Lexeme.Emitted at emitted emitted'
  split_ifs at emitted emitted' with quoted printing scientific
  · obtain ⟨body, _, rfl, shape⟩ := emitted
    obtain ⟨body', _, rfl, shape'⟩ := emitted'
    have inner := List.append_cancel_right (List.cons.inj (shape.symm.trans shape')).2
    rw [Text.flatMap_jsonChar_inj inner]
  · exact emitted.trans emitted'.symm
  · obtain ⟨units, fits, rfl, shape⟩ := emitted
    obtain ⟨units', fits', rfl, shape'⟩ := emitted'
    obtain rfl := magnitudeText_inj fits fits' (shape ▸ scientific.1) (shape.symm.trans shape')
    rfl
  · obtain ⟨spelled, preferred, fits⟩ := emitted
    exact spelled.unique emitted'.1 preferred emitted'.2.1 fits

theorem Lexeme.Spelled.emitted {lexeme : Lexeme} (spelled : lexeme.Spelled word)
    (preferred : lexeme.Preferred) (fits : ¬ Oversized word) (unquoted : word.head? ≠ some '"') :
    lexeme.Emitted word := by
  have numeric {word : List Char} (all : ∀ char ∈ word, char.isDigit = true ∨ char = '.') :
      word ≠ "console.log".toList ∧ 'e' ∉ word := by
    constructor
    · rintro rfl
      exact absurd (all 'c' (by decide)) (by decide)
    · intro present
      exact absurd (all 'e' present) (by decide)
  have plain : word ≠ "console.log".toList ∧
      ¬ ('e' ∈ word ∧ word.head?.any Char.isDigit = true) := by
    cases spelled with
    | integer _ all =>
      obtain ⟨other, absent⟩ := numeric fun char member => .inl (all char member)
      exact ⟨other, fun both => absent both.1⟩
    | decimal _ all all' =>
      obtain ⟨other, absent⟩ := numeric (List.forall_mem_append.mpr
        ⟨fun char member => .inl (all char member), List.forall_mem_cons.mpr
          ⟨.inr rfl, fun char member => .inl (all' char member)⟩⟩)
      exact ⟨other, fun both => absent both.1⟩
    | string _ => exact absurd rfl unquoted
    | @name first others start all =>
      have digit : first.isDigit = false := not_isDigit_of_isNameStart start
      refine ⟨?_, by simp [digit]⟩
      intro same
      have point : '.' ∈ others := (List.cons.inj same).2 ▸ (by decide)
      exact absurd (all '.' point) (by decide)
    | truth => decide
    | falsehood => decide
    | @keyword word => cases word <;> decide
    | @symbol sign => cases sign <;> decide
  unfold Lexeme.Emitted
  rw [if_neg unquoted, if_neg plain.1, if_neg plain.2]
  exact ⟨spelled, preferred, fits⟩

/-- What names and numbers are written with. -/
def isInner (char : Char) : Bool := isNameChar char || ['.', '+', '-'].contains char

private theorem isBreak_eq_false (inner : isInner char = true) : isBreak char = false := by
  have each : ∀ char ∈ [' ', '\t', '\x0c', '\r', '\n', '"', '(', ')', '\x7b', '\x7d', ';', ','],
      (!isInner char) = true :=
    List.all_eq_true.mp rfl
  rw [← Bool.not_eq_true]
  intro broken
  have outer := each char (by simpa [isBreak, isSpace, isMark, or_assoc] using broken)
  rw [inner] at outer
  cases outer

private theorem isBreak_name (named : isNameChar char = true) : isBreak char = false :=
  isBreak_eq_false (by simp [isInner, named])

private theorem isBreak_digit (digit : char.isDigit = true) : isBreak char = false :=
  isBreak_name (isNameChar_of_isDigit char digit)

private theorem isNameChar_of_isNameStart (start : isNameStart char = true) :
    isNameChar char = true := by
  simp only [isNameStart, isNameChar, Char.isAlphanum, Bool.or_eq_true] at start ⊢
  tauto

/-- Neither a string nor punctuation. -/
def Lexeme.IsWord (lexeme : Lexeme) : Prop :=
  (∀ value, lexeme ≠ .string value) ∧ ∀ sign ∈ marks, lexeme ≠ .symbol sign

theorem Lexeme.Spelled.whole {lexeme : Lexeme} (spelled : lexeme.Spelled word)
    (isWord : lexeme.IsWord) : isWhole word = true := by
  cases spelled with
  | integer _ all => exact isWhole_iff.mpr fun char member => isBreak_digit (all char member)
  | decimal _ all all' =>
    exact isWhole_iff.mpr (List.forall_mem_append.mpr
      ⟨fun char member => isBreak_digit (all char member), List.forall_mem_cons.mpr
        ⟨by decide, fun char member => isBreak_digit (all' char member)⟩⟩)
  | string _ => exact absurd rfl (isWord.1 _)
  | name start all =>
    exact isWhole_iff.mpr (List.forall_mem_cons.mpr
      ⟨isBreak_name (isNameChar_of_isNameStart start), fun char member =>
        isBreak_name (all char member)⟩)
  | truth => decide
  | falsehood => decide
  | @keyword word => cases word <;> decide
  | @symbol sign =>
    have unmarked : sign ∉ marks := fun alone => isWord.2 sign alone rfl
    revert unmarked
    cases sign <;> decide

/-- The source has the words that stand for the phrase, and then those of the rest. -/
def Worded (source : List Char) (phrase : List Lexeme) (rest : List Char) : Prop :=
  ∃ pieces, words source = pieces ++ words rest ∧ List.Forall₂ Lexeme.Emitted phrase pieces

theorem Worded.trans (first : Worded source phrase middle) (second : Worded middle phrase' rest) :
    Worded source (phrase ++ phrase') rest := by
  obtain ⟨pieces, split, emitted⟩ := first
  obtain ⟨pieces', split', emitted'⟩ := second
  refine ⟨pieces ++ pieces', ?_, List.rel_append emitted emitted'⟩
  rw [split, split', List.append_assoc]

theorem Lexeme.Emitted.worded {lexeme : Lexeme} (emitted : lexeme.Emitted word) (nonempty : word ≠ [])
    (whole : isWhole word = true) (broken : Broken rest) : Worded (word ++ rest) [lexeme] rest :=
  ⟨[word], words_word nonempty whole broken, .cons emitted .nil⟩

theorem Lexeme.Spelled.worded {lexeme : Lexeme} (spelled : lexeme.Spelled word)
    (preferred : lexeme.Preferred) (fits : ¬ Oversized word) (isWord : lexeme.IsWord)
    (broken : Broken rest) : Worded (word ++ rest) [lexeme] rest := by
  have whole := spelled.whole isWord
  refine (spelled.emitted preferred fits ?_).worded spelled.ne_nil whole broken
  intro quoted
  exact absurd (isWhole_iff.mp whole '"' (List.mem_of_mem_head? quoted)) (by decide)

private theorem worded_mark (alone : sign ∈ marks) :
    Worded (sign.text.toList ++ rest) [.symbol sign] rest := by
  have unquoted : sign.text.toList.head? ≠ some '"' := by cases sign <;> decide
  exact ⟨[sign.text.toList], words_mark alone,
    .cons (Lexeme.Spelled.symbol.emitted nofun sign.not_oversized unquoted) .nil⟩

private theorem worded_symbol (sign : Symbol) (broken : Broken rest) :
    Worded (sign.text.toList ++ rest) [.symbol sign] rest := by
  by_cases alone : sign ∈ marks
  · exact worded_mark alone
  · refine Lexeme.Spelled.symbol.worded nofun sign.not_oversized ⟨nofun, ?_⟩ broken
    rintro _ member ⟨⟩
    exact alone member

private theorem worded_keyword (word : Keyword) (broken : Broken rest) :
    Worded (word.text.toList ++ rest) [.keyword word] rest :=
  Lexeme.Spelled.keyword.worded nofun word.not_oversized ⟨nofun, nofun⟩ broken

private theorem broken_parting (member : char ∈ partings) : Broken (char :: rest) := by
  have each : ∀ char ∈ partings, isBreak char = true := List.all_eq_true.mp rfl
  rintro _ ⟨⟩
  exact each char member

/-- Emitted text read word by word. -/
def wordReader : Reader where
  steps := Worded
  ends := Broken
  refl := ⟨[], rfl, .nil⟩
  trans := .trans
  space blank := ⟨[], words_space blank, .nil⟩
  mark := worded_mark
  symbol := worded_symbol _
  keyword _ := worded_keyword _
  parted := broken_parting

/-- Neither the word that imports nor a double that is not finite. -/
def Lexeme.Faithful : Lexeme → Prop
  | .number (.double value) => value.isFinite = true
  | .keyword word => word ≠ .importWord
  | _ => True

private theorem words_name (written : (Lexeme.identifier name).Written) :
    wordReader.Reads name [.identifier name] := by
  obtain ⟨text, spelled, preferred, fits⟩ := written
  cases spelled with
  | name start all =>
    intro rest broken
    rw [String.toList_ofList]
    exact Lexeme.Spelled.worded (.name start all) preferred fits ⟨nofun, nofun⟩ broken

private theorem words_boolean (value : Bool) :
    wordReader.Reads (Literal.boolean value).emit [.boolean value] := by
  intro rest broken
  cases value with
  | true =>
    exact Lexeme.Spelled.truth.worded nofun (fun tooLong => absurd tooLong.2 (by decide))
      ⟨nofun, nofun⟩ broken
  | false =>
    exact Lexeme.Spelled.falsehood.worded nofun (fun tooLong => absurd tooLong.2 (by decide))
      ⟨nofun, nofun⟩ broken

private theorem words_integer (written : (Lexeme.number (.integer value)).Written) :
    wordReader.Reads (toString value) [.number (.integer value)] := by
  obtain ⟨spelled, fits⟩ := spelled_integer written
  exact fun rest broken => spelled.worded nofun fits ⟨nofun, nofun⟩ broken

private theorem exponentText_whole (exponent : Int) :
    ∀ char ∈ exponentText exponent, isBreak char = false := by
  have sign : isBreak (if exponent < 0 then '-' else '+') = false := by split <;> decide
  have digits : ∀ char ∈ Nat.toDigits 10 exponent.natAbs, isBreak char = false :=
    fun char member => isBreak_digit (Nat.isDigit_of_mem_toDigits (by decide) (by decide) member)
  have padding : ∀ count, ∀ char ∈ zeros count, isBreak char = false :=
    fun count char member => isBreak_digit (zeros_digits count char member)
  exact List.forall_mem_cons.mpr ⟨by decide, List.forall_mem_cons.mpr ⟨sign,
    List.forall_mem_append.mpr ⟨padding _, digits⟩⟩⟩

private theorem mantissa_whole (all : ∀ char ∈ first :: others, char.isDigit = true) :
    ∀ char ∈ first :: if others.isEmpty then [] else '.' :: others, isBreak char = false := by
  obtain ⟨digit, digits⟩ := List.forall_mem_cons.mp all
  refine List.forall_mem_cons.mpr ⟨isBreak_digit digit, ?_⟩
  split
  · exact fun char member => absurd member List.not_mem_nil
  · exact List.forall_mem_cons.mpr ⟨by decide, fun char member => isBreak_digit (digits char member)⟩

private theorem words_scientific (fits : Representable units) (present : 'e' ∈ magnitudeText units)
    (broken : Broken rest) :
    Worded (magnitudeText units ++ rest) [.number (.double (.finite false units fits))] rest := by
  obtain ⟨first, others, point, significant, shape⟩ := magnitudeText_scientific fits present
  have digit : first.isDigit = true := significant.all first List.mem_cons_self
  have head : (magnitudeText units).head? = some first := by
    rw [shape]
    rfl
  have emitted : (Lexeme.number (.double (.finite false units fits))).Emitted
      (magnitudeText units) := by
    have unquoted : (magnitudeText units).head? ≠ some '"' := by
      rw [head]
      rintro ⟨⟩
      cases digit
    have other : magnitudeText units ≠ "console.log".toList := by
      intro same
      rw [same] at head
      cases head
      cases digit
    rw [Lexeme.Emitted, if_neg unquoted, if_neg other, if_pos ⟨present, by simp [head, digit]⟩]
    exact ⟨units, fits, rfl, rfl⟩
  refine emitted.worded (List.ne_nil_of_mem present) ?_ broken
  rw [isWhole_iff, shape]
  exact List.forall_mem_append.mpr ⟨mantissa_whole significant.all, exponentText_whole _⟩

private theorem words_double (written : (Lexeme.number (.double value)).Written)
    (finite : value.isFinite = true) :
    wordReader.Reads (Json.doubleText value) [.number (.double value)] := by
  obtain ⟨units, fits, rfl, chars⟩ := exists_magnitude written finite
  intro rest broken
  rw [chars]
  by_cases scientific : 'e' ∈ magnitudeText units
  · exact words_scientific fits scientific broken
  · obtain ⟨spelled, short⟩ := spelled_magnitude fits scientific
    exact spelled.worded nofun short ⟨nofun, nofun⟩ broken

private theorem words_string (written : (Lexeme.string value).Written) :
    wordReader.Reads (Text.jsonQuoted false value) [.string value] := by
  obtain ⟨text, spelled, _, _⟩ := written
  cases spelled with
  | @string body unquoted =>
    intro rest _
    refine ⟨[(Text.jsonQuoted false (String.ofList body)).toList], ?_, .cons ?_ .nil⟩
    · rw [Text.toList_jsonQuoted, List.cons_append, List.append_assoc]
      exact words_quoted (Text.quote_not_mem_flatMap unquoted)
    · rw [Text.toList_jsonQuoted, Lexeme.Emitted, if_pos List.head?_cons]
      exact ⟨body, unquoted, rfl, rfl⟩

theorem words_print : wordReader.Reads "console.log" [.keyword .printWord] := by
  intro rest broken
  have emitted : (Lexeme.keyword .printWord).Emitted "console.log".toList := by
    rw [Lexeme.Emitted, if_neg (by decide), if_pos rfl]
  exact emitted.worded (by decide) (by decide) broken

/-- Names and finite literals are words. -/
theorem speech_words :
    Speech wordReader (fun lexeme => lexeme.Written ∧ lexeme.Faithful) Literal.phrase where
  name _ := fun ⟨written, _⟩ => words_name written
  literal
    | .boolean value, _ => words_boolean value
    | .number (.integer _), ⟨written, _⟩ => words_integer written
    | .number (.double _), ⟨written, finite⟩ => words_double written finite
    | .string _, ⟨written, _⟩ => words_string written

end ScriptKit
