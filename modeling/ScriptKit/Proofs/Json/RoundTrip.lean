import ScriptKit.Proofs.Json.Numbers
import ScriptKit.Proofs.Json.Strings
import ScriptKit.Proofs.Table

/-!
JSON documents read back from their indented text, if no object has two fields with one key.
-/
namespace ScriptKit.Json

mutual

/-- All strings are texts, and no object has two fields with one key. -/
def Keyed : Json → Prop
  | .loose _ => False
  | .array items => KeyedAll items
  | .object fields => (fields.map Prod.fst).Nodup ∧ KeyedFields fields
  | _ => True

def KeyedAll : List Json → Prop
  | [] => True
  | item :: items => Keyed item ∧ KeyedAll items

def KeyedFields : List (String × Json) → Prop
  | [] => True
  | (_, value) :: fields => Keyed value ∧ KeyedFields fields

end

section
variable {limit : Option Nat} {text more more' after rest : List Char} {value item : Json}
  {items : List Json} {fields all : List (String × Json)} {key : String}

private theorem readScalar_word (nonempty : spelling ≠ [])
    (found : words.find? (fun entry => entry.1.isPrefixOf (spelling ++ rest)) = some (spelling, value)) :
    Gives (readScalar limit (spelling ++ rest)) value rest := by
  have shorter : rest.length < (spelling ++ rest).length := by
    have := List.length_pos_iff.mpr nonempty
    simp
    omega
  unfold readScalar
  simp only [found, List.drop_left]
  rw [dif_pos shorter]
  exact ⟨_, rfl⟩

private theorem readScalar_number
    (missing : words.find? (fun entry => entry.1.isPrefixOf text) = none)
    (read : readNumber? limit text = some (.ok value, rest)) (shorter : rest.length < text.length) :
    Gives (readScalar limit text) value rest := by
  unfold readScalar
  simp only [missing, read]
  rw [dif_pos shorter]
  exact ⟨_, rfl⟩

private theorem readValue_scalar (scalar : Gives (readScalar limit text) value rest)
    (other : ∀ char ∈ text.head?, char ≠ '"' ∧ char ≠ '\x7b' ∧ char ≠ '[') :
    Gives (readValue limit text) value rest := by
  rw [readValue]
  · exact scalar
  · rintro _ rfl
    exact (other '"' rfl).1 rfl
  · rintro _ rfl
    exact (other '\x7b' rfl).2.1 rfl
  · rintro _ rfl
    exact (other '[' rfl).2.2 rfl

private theorem readValue_word
    (plain : spelling.head?.all (fun char => char ≠ '"' ∧ char ≠ '\x7b' ∧ char ≠ '[') = true)
    (nonempty : spelling ≠ [])
    (found : words.find? (fun entry => entry.1.isPrefixOf (spelling ++ rest)) = some (spelling, value)) :
    Gives (readValue limit (spelling ++ rest)) value rest := by
  refine readValue_scalar (readScalar_word nonempty found) ?_
  obtain ⟨first, others, rfl⟩ := List.exists_cons_of_ne_nil nonempty
  intro char first
  exact of_decide_eq_true ((Option.all_eq_true _ _).mp plain char first)

private theorem readValue_string
    (string : Gives (readString ('"' :: text) text) (Text.toPoints key) rest) :
    Gives (readValue limit ('"' :: text)) (.string key) rest := by
  have same : ofPoints (Text.toPoints key) = .string key := by
    rw [ofPoints, Text.ofPoints_toPoints]
  rw [readValue, ← same]
  exact string.bind fun _ => ⟨_, rfl⟩

private theorem readValue_array (opened : ∀ after, skipGap text ≠ ']' :: after)
    (inner : Gives (readItems limit (skipGap text)) items rest) :
    Gives (readValue limit ('[' :: text)) (.array items) rest := by
  rw [readValue]
  split
  · rename_i closed
    exact (opened _ closed).elim
  · exact inner.bind fun _ => ⟨_, rfl⟩

private theorem readValue_array_nil (closed : skipGap text = ']' :: rest) :
    Gives (readValue limit ('[' :: text)) (.array []) rest := by
  rw [readValue]
  split
  · rename_i found
    obtain ⟨_, rfl⟩ := List.cons.inj (closed.symm.trans found)
    exact ⟨_, rfl⟩
  · rename_i unclosed
    exact (unclosed _ closed).elim

private theorem readItems_last (first : Gives (readValue limit text) item more)
    (close : skipGap more = ']' :: rest) : Gives (readItems limit text) [item] rest := by
  rw [readItems]
  refine first.bind fun within => ?_
  split
  · rename_i found
    obtain ⟨_, rfl⟩ := List.cons.inj (close.symm.trans found)
    exact ⟨_, rfl⟩
  · rename_i found
    cases close.symm.trans found
  · rename_i unclosed _
    exact (unclosed _ close).elim

private theorem readItems_next (first : Gives (readValue limit text) item more)
    (comma : skipGap more = ',' :: after) (others : Gives (readItems limit (skipGap after)) items rest) :
    Gives (readItems limit text) (item :: items) rest := by
  rw [readItems]
  refine first.bind fun within => ?_
  split
  · rename_i found
    cases comma.symm.trans found
  · rename_i found
    obtain ⟨_, rfl⟩ := List.cons.inj (comma.symm.trans found)
    exact others.bind fun _ => ⟨_, rfl⟩
  · rename_i alone
    exact (alone _ comma).elim

theorem readValue_object (opened : ∀ after, skipGap text ≠ '\x7d' :: after)
    (inner : Gives (readFields limit [] (skipGap text)) fields rest) :
    Gives (readValue limit ('\x7b' :: text)) (.object fields) rest := by
  rw [readValue]
  split
  · rename_i closed
    exact (opened _ closed).elim
  · exact inner.bind fun _ => ⟨_, rfl⟩

private theorem readValue_object_nil (closed : skipGap text = '\x7d' :: rest) :
    Gives (readValue limit ('\x7b' :: text)) (.object []) rest := by
  rw [readValue]
  split
  · rename_i found
    obtain ⟨_, rfl⟩ := List.cons.inj (closed.symm.trans found)
    exact ⟨_, rfl⟩
  · rename_i unclosed
    exact (unclosed _ closed).elim

private theorem addField_toPoints (key : String) (value : Json) (fields : List (String × Json)) :
    addField (Text.toPoints key) value fields = Table.put key value fields := by
  rw [addField, Text.ofPoints_toPoints]

theorem readFields_last (name : Gives (readString ('"' :: text) text) (Text.toPoints key) more)
    (colon : skipGap more = ':' :: after) (read : Gives (readValue limit (skipGap after)) value more')
    (close : skipGap more' = '\x7d' :: rest) :
    Gives (readFields limit fields ('"' :: text)) (Table.put key value fields) rest := by
  rw [readFields]
  refine name.bind fun within => ?_
  dsimp only
  split
  · rename_i found
    obtain ⟨_, rfl⟩ := List.cons.inj (colon.symm.trans found)
    refine read.bind fun within' => ?_
    dsimp only
    rw [addField_toPoints]
    split
    · rename_i found'
      obtain ⟨_, rfl⟩ := List.cons.inj (close.symm.trans found')
      exact ⟨_, rfl⟩
    · rename_i found'
      cases close.symm.trans found'
    · rename_i unclosed _
      exact (unclosed _ close).elim
  · rename_i missing
    exact (missing _ colon).elim

private theorem readFields_next
    (name : Gives (readString ('"' :: text) text) (Text.toPoints key) more)
    (colon : skipGap more = ':' :: after) (read : Gives (readValue limit (skipGap after)) value more')
    (comma : skipGap more' = ',' :: after')
    (others : Gives (readFields limit (Table.put key value fields) (skipGap after')) all rest) :
    Gives (readFields limit fields ('"' :: text)) all rest := by
  rw [readFields]
  refine name.bind fun within => ?_
  dsimp only
  split
  · rename_i found
    obtain ⟨_, rfl⟩ := List.cons.inj (colon.symm.trans found)
    refine read.bind fun within' => ?_
    dsimp only
    rw [addField_toPoints]
    split
    · rename_i found'
      cases comma.symm.trans found'
    · rename_i found'
      obtain ⟨_, rfl⟩ := List.cons.inj (comma.symm.trans found')
      exact others.bind fun _ => ⟨_, rfl⟩
    · rename_i alone
      exact (alone _ comma).elim
  · rename_i missing
    exact (missing _ colon).elim

end

/-- Characters that no value starts with. -/
def closings : List Char := [' ', '\t', '\n', '\r', ']', '\ufeff']

private theorem readScalar_closing (closing : char ∈ closings) (limit : Option Nat)
    (text : List Char) :
    readScalar limit (char :: text) = .error (.unreadable "Expecting value" (char :: text)) := by
  simp only [closings, List.mem_cons, List.not_mem_nil, or_false] at closing
  rcases closing with rfl | rfl | rfl | rfl | rfl | rfl <;> rfl

/-- What a value is read from starts with a character of its own. -/
theorem readValue_starts {limit : Option Nat} {text : List Char}
    (read : Gives (readValue limit text) value rest) :
    ∃ char others, text = char :: others ∧ char ∉ closings := by
  obtain ⟨within, read⟩ := read
  cases text with
  | nil => exact absurd within (Nat.not_lt_zero _)
  | cons char others =>
    refine ⟨char, others, rfl, fun closing => ?_⟩
    have failed := readScalar_closing closing limit others
    rw [readValue] at read
    · cases failed.symm.trans read
    all_goals
      rintro _ same
      cases same
      exact absurd closing (by decide)

private theorem skipGap_cons (solid : isGap char = false) :
    skipGap (char :: text) = char :: text := by
  rw [skipGap, List.dropWhile_cons_of_neg (by simp [solid])]

private theorem skipGap_starts {limit : Option Nat} {text : List Char}
    (read : Gives (readValue limit text) value rest) : skipGap text = text := by
  obtain ⟨char, others, rfl, own⟩ := readValue_starts read
  refine skipGap_cons ?_
  have each : ∀ char, isGap char = true → char ∈ closings := by
    intro char gap
    simp only [isGap, Bool.or_eq_true, beq_iff_eq] at gap
    rcases gap with ((rfl | rfl) | rfl) | rfl <;> decide
  exact Bool.not_eq_true _ ▸ fun gap => own (each char gap)

private theorem skipGap_lineBreak (depth : Nat) (text : List Char) :
    skipGap ((lineBreak depth).toList ++ text) = skipGap text := by
  refine List.dropWhile_append_of_pos fun char member => ?_
  rw [lineBreak, String.toList_append, String.toList_ofList, String.toList_ofList] at member
  rcases List.mem_append.mp member with member | member
  · rw [List.mem_singleton.mp member]
    rfl
  · rw [List.eq_of_mem_replicate member]
    rfl

/-- A digit starts no word, with or without a sign. -/
theorem find?_words_digit (digit : first.isDigit = true) (negative : Bool) (more : List Char) :
    words.find? (fun entry => entry.1.isPrefixOf (minus negative ++ first :: more)) = none := by
  have other (char : Char) (letter : char.isDigit = false) : (char == first) = false := by
    refine beq_false_of_ne ?_
    rintro rfl
    cases digit.symm.trans letter
  cases negative <;>
    simp [words, minus, List.isPrefixOf, other]

theorem toList_doubleText (negative : Bool) (fits : Representable units) :
    (doubleText (.finite negative units fits)).toList = minus negative ++ magnitudeText units :=
  String.toList_ofList

private theorem magnitudeText_digit (fits : Representable units) :
    ∃ first others, magnitudeText units = first :: others ∧ first.isDigit = true := by
  by_cases scientific : 'e' ∈ magnitudeText units
  · obtain ⟨first, others, point, significant, shape⟩ := magnitudeText_scientific fits scientific
    exact ⟨first, _, shape, significant.all first List.mem_cons_self⟩
  · obtain ⟨whole, fraction, shape, nonempty, all, _⟩ := magnitudeText_reads fits scientific
    obtain ⟨first, others, rfl⟩ := List.exists_cons_of_ne_nil nonempty
    exact ⟨first, _, shape, all first List.mem_cons_self⟩

/-- Numbers start with a sign or a digit. -/
theorem readValue_number (digit : first.isDigit = true) (negative : Bool)
    (read : readNumber? none (minus negative ++ first :: more) = some (.ok value, rest))
    (shorter : rest.length < (minus negative ++ first :: more).length) :
    Gives (readValue none (minus negative ++ first :: more)) value rest := by
  refine readValue_scalar (readScalar_number (find?_words_digit digit negative more) read shorter) ?_
  intro char head
  cases negative with
  | true =>
    cases head
    decide
  | false =>
    cases head
    refine ⟨?_, ?_, ?_⟩ <;>
    · rintro rfl
      exact absurd digit (by decide)

private theorem readValue_double (value : Double) (ended : Ended rest) :
    Gives (readValue none ((doubleText value).toList ++ rest)) (.double value) rest := by
  cases value with
  | nan => exact readValue_word (by decide) (by decide) rfl
  | infinite negative => cases negative <;> exact readValue_word (by decide) (by decide) rfl
  | finite negative units fits =>
    have read := readNumber?_double negative fits ended
    obtain ⟨first, others, shape, digit⟩ := magnitudeText_digit fits
    rw [toList_doubleText, List.append_assoc]
    rw [shape] at read ⊢
    exact readValue_number digit negative read (by simp; omega)

private theorem readValue_integer (value : Int) (ended : Ended rest) :
    Gives (readValue none ((toString value).toList ++ rest)) (.integer value) rest := by
  have read := readNumber?_integer value ended
  have part := WholePart.toDigits value.natAbs
  obtain ⟨first, others, shape⟩ := List.exists_cons_of_ne_nil part.nonempty
  rw [toList_integerText, List.append_assoc] at read ⊢
  rw [shape] at part read ⊢
  exact readValue_number (part.all first List.mem_cons_self) _ read (by simp; omega)

theorem toList_quoted (text : String) (rest : List Char) :
    (Text.jsonQuoted true text).toList ++ rest =
      '"' :: (text.toList.flatMap (Text.jsonChar true) ++ '"' :: rest) := by
  simp [Text.jsonQuoted]

private theorem skipGap_quoted (depth : Nat) (text : String) (rest : List Char) :
    skipGap ((lineBreak depth).toList ++ ((Text.jsonQuoted true text).toList ++ rest)) =
      (Text.jsonQuoted true text).toList ++ rest := by
  rw [skipGap_lineBreak, toList_quoted]
  exact skipGap_cons rfl

private theorem ended_lineBreak (depth : Nat) (rest : List Char) :
    Ended ((lineBreak depth).toList ++ rest) := by
  rintro char head
  rw [lineBreak, String.toList_append] at head
  cases head
  exact .inr rfl

private theorem ended_indentedItems (items : List Json) (depth : Nat) (ended : Ended rest) :
    Ended ((indentedItems depth items).toList ++ rest) := by
  cases items with
  | nil => exact ended
  | cons item items =>
    rintro char head
    simp only [indentedItems, String.toList_append, List.append_assoc] at head
    cases head
    exact .inl rfl

private theorem ended_indentedFields (fields : List (String × Json)) (depth : Nat)
    (ended : Ended rest) :
    Ended ((indentedFields depth fields).toList ++ rest) := by
  cases fields with
  | nil => exact ended
  | cons field fields =>
    rintro char head
    simp only [indentedFields, String.toList_append, List.append_assoc] at head
    cases head
    exact .inl rfl

theorem indented_array_nil (depth : Nat) : indented depth (.array []) = "[]" := by
  rw [indented]
  · rfl
  · nofun
  · nofun

theorem indented_object_nil (depth : Nat) : indented depth (.object []) = "\x7b\x7d" := by
  rw [indented]
  · rfl
  · nofun
  · nofun

theorem toList_array (depth : Nat) (item : Json) (items : List Json) (rest : List Char) :
    (indented depth (.array (item :: items))).toList ++ rest =
      '[' :: ((lineBreak (depth + 1)).toList ++ ((indented (depth + 1) item).toList ++
        ((indentedItems (depth + 1) items).toList ++ ((lineBreak depth).toList ++ ']' :: rest)))) := by
  simp [indented]

theorem toList_items (depth : Nat) (item : Json) (items : List Json) (rest : List Char) :
    (indentedItems depth (item :: items)).toList ++ rest =
      ',' :: ((lineBreak depth).toList ++ ((indented depth item).toList ++
        ((indentedItems depth items).toList ++ rest))) := by
  simp [indentedItems]

theorem toList_object (depth : Nat) (key : String) (value : Json) (fields : List (String × Json))
    (rest : List Char) :
    (indented depth (.object ((key, value) :: fields))).toList ++ rest =
      '\x7b' :: ((lineBreak (depth + 1)).toList ++ ((Text.jsonQuoted true key).toList ++
        (':' :: ' ' :: ((indented (depth + 1) value).toList ++
          ((indentedFields (depth + 1) fields).toList ++ ((lineBreak depth).toList ++ '\x7d' :: rest)))))) := by
  simp [indented]

theorem toList_fields (depth : Nat) (key : String) (value : Json) (fields : List (String × Json))
    (rest : List Char) :
    (indentedFields depth ((key, value) :: fields)).toList ++ rest =
      ',' :: ((lineBreak depth).toList ++ ((Text.jsonQuoted true key).toList ++
        (':' :: ' ' :: ((indented depth value).toList ++
          ((indentedFields depth fields).toList ++ rest))))) := by
  simp [indentedFields]

theorem readValue_null (rest : List Char) :
    Gives (readValue limit ("null".toList ++ rest)) .null rest :=
  readValue_word (by decide) (by decide) rfl

private theorem readValue_boolean (value : Bool) (rest : List Char) :
    Gives (readValue none ((if value then "true" else "false").toList ++ rest)) (.boolean value) rest := by
  cases value <;> exact readValue_word (by decide) (by decide) rfl

private theorem put_of_nodup {known fields : List (String × Json)}
    (distinct : ((known ++ (key, value) :: fields).map Prod.fst).Nodup) :
    Table.put key value known = known ++ [(key, value)] := by
  rw [List.map_append, List.map_cons] at distinct
  refine Table.put_new (fun member => ?_) value
  exact (List.nodup_append.mp distinct).2.2 key member key List.mem_cons_self rfl

theorem readString_quoted (key : String) (rest : List Char) :
    Gives (readString ('"' :: (key.toList.flatMap (Text.jsonChar true) ++ '"' :: rest))
      (key.toList.flatMap (Text.jsonChar true) ++ '"' :: rest)) (Text.toPoints key) rest :=
  readString_flatMap _ key.toList rest

private theorem readValue_text (value : String) (rest : List Char) :
    Gives (readValue none ((Text.jsonQuoted true value).toList ++ rest)) (.string value) rest := by
  have read := @readValue_string none _ rest _ (readString_quoted value rest)
  rwa [← toList_quoted] at read

mutual

/-- A value is read from its text, whatever its indentation. -/
theorem readValue_indented : (json : Json) → json.Keyed → (depth : Nat) → Ended rest →
    Gives (readValue none ((json.indented depth).toList ++ rest)) json rest
  | .null => fun _ _ _ => readValue_null rest
  | .boolean value => fun _ _ _ => readValue_boolean value rest
  | .integer value => fun _ _ ended => readValue_integer value ended
  | .double value => fun _ _ ended => readValue_double value ended
  | .string value => fun _ _ _ => readValue_text value rest
  | .loose _ => fun keyed => keyed.elim
  | .array [] => by
    intro _ depth _
    rw [indented_array_nil]
    exact @readValue_array_nil none (']' :: rest) rest (skipGap_cons rfl)
  | .array (item :: items) => by
    intro keyed depth _
    have first := readValue_indented item keyed.1 (depth + 1)
      (ended_indentedItems items (depth + 1) (ended_lineBreak depth (']' :: rest)))
    have inner := readItems_indented items keyed.2 depth first
    obtain ⟨char, others, start, own⟩ := readValue_starts first
    have skipped := (skipGap_lineBreak (depth + 1) _).trans (skipGap_starts first)
    rw [toList_array]
    rw [← skipped] at inner
    refine readValue_array ?_ inner
    rintro after closed
    rw [skipped, start] at closed
    cases closed
    exact own (by decide)
  | .object [] => by
    intro _ depth _
    rw [indented_object_nil]
    exact @readValue_object_nil none ('\x7d' :: rest) rest (skipGap_cons rfl)
  | .object ((key, value) :: fields) => by
    intro keyed depth _
    have read := readValue_indented value keyed.2.1 (depth + 1)
      (ended_indentedFields fields (depth + 1) (ended_lineBreak depth ('\x7d' :: rest)))
    have inner := readFields_indented [] fields keyed.2.2 keyed.1 depth read
    rw [toList_object]
    rw [← skipGap_quoted (depth + 1)] at inner
    refine readValue_object ?_ inner
    rintro after closed
    rw [skipGap_quoted, toList_quoted] at closed
    cases closed

theorem readItems_indented : (items : List Json) → KeyedAll items → (depth : Nat) →
    Gives (readValue none text) item
      ((indentedItems (depth + 1) items).toList ++ ((lineBreak depth).toList ++ ']' :: rest)) →
    Gives (readItems none text) (item :: items) rest
  | [] => by
    intro _ depth first
    refine readItems_last first ?_
    rw [indentedItems, String.toList_empty, List.nil_append, skipGap_lineBreak]
    exact skipGap_cons rfl
  | next :: items => by
    intro keyed depth first
    have second := readValue_indented next keyed.1 (depth + 1)
      (ended_indentedItems items (depth + 1) (ended_lineBreak depth (']' :: rest)))
    have others := readItems_indented items keyed.2 depth second
    rw [← (skipGap_lineBreak (depth + 1) _).trans (skipGap_starts second)] at others
    rw [toList_items] at first
    exact readItems_next first (skipGap_cons rfl) others

theorem readFields_indented (known : List (String × Json)) : (fields : List (String × Json)) →
    KeyedFields fields → ((known ++ (key, value) :: fields).map Prod.fst).Nodup → (depth : Nat) →
    Gives (readValue none text) value
      ((indentedFields (depth + 1) fields).toList ++ ((lineBreak depth).toList ++ '\x7d' :: rest)) →
    Gives (readFields none known ((Text.jsonQuoted true key).toList ++ (':' :: ' ' :: text)))
      (known ++ (key, value) :: fields) rest
  | [] => by
    intro _ distinct depth read
    have inserted := put_of_nodup distinct
    have name := readString_quoted key (':' :: ' ' :: text)
    have skipped : skipGap (' ' :: text) = text := skipGap_starts read
    rw [← skipped] at read
    rw [toList_quoted, ← inserted]
    refine readFields_last name (skipGap_cons rfl) read ?_
    rw [indentedFields, String.toList_empty, List.nil_append, skipGap_lineBreak]
    exact skipGap_cons rfl
  | (key', value') :: fields => by
    intro keyed distinct depth read
    have inserted := put_of_nodup distinct
    have name := readString_quoted key (':' :: ' ' :: text)
    have skipped : skipGap (' ' :: text) = text := skipGap_starts read
    have second := readValue_indented value' keyed.1 (depth + 1)
      (ended_indentedFields fields (depth + 1) (ended_lineBreak depth ('\x7d' :: rest)))
    have others := readFields_indented (known ++ [(key, value)]) fields keyed.2
      (by simpa using distinct) depth second
    rw [← skipGap_quoted (depth + 1), ← inserted] at others
    rw [toList_fields, ← skipped] at read
    rw [toList_quoted]
    have next := readFields_next name (skipGap_cons rfl) read (skipGap_cons rfl) others
    rwa [inserted, List.append_assoc] at next

end

/-- A text that is one value is a document. -/
theorem ofChars_of_gives (read : Gives (readValue limit text) json []) : ofChars limit text = .ok json := by
  obtain ⟨char, others, start, own⟩ := readValue_starts read
  have unmarked : text.head? ≠ some '\ufeff' := by
    rw [start]
    rintro ⟨⟩
    exact own (by decide)
  have skipped := skipGap_starts read
  obtain ⟨within, same⟩ := read
  rw [ofChars, if_neg unmarked, skipped, same]
  rfl

/-- A document is read from its text. -/
theorem ofChars_indented {json : Json} (keyed : json.Keyed) (depth : Nat) :
    ofChars none (json.indented depth).toList = .ok json := by
  have whole := @readValue_indented [] json keyed depth fun _ next => by cases next
  rw [List.append_nil] at whole
  exact ofChars_of_gives whole

end ScriptKit.Json
