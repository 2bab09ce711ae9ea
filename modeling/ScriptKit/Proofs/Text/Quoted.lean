import ScriptKit.Proofs.Text.Plain

/-!
Texts between quotes. No quote stands inside, and different texts are quoted differently: what stands
for one character is not the beginning of what stands for another.
-/
namespace ScriptKit.Text

theorem toList_jsonQuoted (body : List Char) :
    (jsonQuoted false (String.ofList body)).toList =
      '"' :: (body.flatMap (jsonChar false) ++ ['"']) := by
  rw [jsonQuoted, String.toList_ofList, String.toList_ofList]
  rfl

private theorem quote_not_mem_jsonChar (unquoted : char ≠ '"') : '"' ∉ jsonChar false char := by
  have hex := not_mem_hexDigits (by grind [Nat.digitChar] : ∀ digit, Nat.digitChar digit ≠ '"')
    4 char.toNat
  unfold jsonChar unitEscape
  repeat' split
  all_goals grind

theorem quote_not_mem_flatMap {body : List Char} (unquoted : '"' ∉ body) :
    '"' ∉ body.flatMap (jsonChar false) := by
  intro member
  obtain ⟨char, listed, within⟩ := List.mem_flatMap.mp member
  refine quote_not_mem_jsonChar ?_ within
  rintro rfl
  exact unquoted listed

/-- The characters that have a letter after the backslash. -/
def letterEscapes : List (Char × Char) :=
  [('"', '"'), ('\\', '\\'), ('\n', 'n'), ('\r', 'r'), ('\t', 't'), ('\x08', 'b'), ('\x0c', 'f')]

/-- A character stands for itself, or it has a letter, or it has the digits of its code. -/
theorem jsonChar_cases (char : Char) :
    (char ≠ '\\' ∧ jsonChar false char = [char]) ∨
    (∃ letter, (char, letter) ∈ letterEscapes ∧ jsonChar false char = ['\\', letter]) ∨
    (char.toNat < 0x20 ∧ jsonChar false char = unitEscape char.toNat) := by
  have table : ∀ entry ∈ letterEscapes, jsonChar false entry.1 = ['\\', entry.2] := by decide
  by_cases short : char ∈ letterEscapes.map Prod.fst
  · obtain ⟨entry, member, rfl⟩ := List.mem_map.mp short
    exact .inr (.inl ⟨entry.2, member, table entry member⟩)
  · simp only [letterEscapes, List.map_cons, List.map_nil, List.mem_cons, List.not_mem_nil,
      or_false, not_or] at short
    by_cases control : char.toNat < 0x20
    · exact .inr (.inr ⟨control, by simp [jsonChar, short, control]⟩)
    · exact .inl ⟨short.2.1, by simp [jsonChar, short, control]⟩

private theorem hexDigits_inj (small : value < 0x20) (small' : value' < 0x20)
    (same : hexDigits 4 value ++ rest = hexDigits 4 value' ++ rest') :
    value = value' ∧ rest = rest' := by
  have lengths : ∀ value < 0x20, (hexDigits 4 value).length = 4 := by decide
  have values : ∀ value < 0x20, ∀ value' < 0x20,
      hexDigits 4 value = hexDigits 4 value' → value = value' := by
    decide
  obtain ⟨digits, rests⟩ := List.append_inj same (by rw [lengths _ small, lengths _ small'])
  exact ⟨values _ small _ small' digits, rests⟩

/-- What stands for a character is known from any text that starts with it. -/
theorem jsonChar_inj (same : jsonChar false char ++ rest = jsonChar false char' ++ rest') :
    char = char' ∧ rest = rest' := by
  have letters : ∀ entry ∈ letterEscapes, entry.2 ≠ 'u' ∧
      ∀ other ∈ letterEscapes, entry.2 = other.2 → entry.1 = other.1 := by
    decide
  rcases jsonChar_cases char with ⟨other, shape⟩ | ⟨letter, member, shape⟩ | ⟨small, shape⟩ <;>
    rcases jsonChar_cases char' with ⟨other', shape'⟩ | ⟨letter', member', shape'⟩ | ⟨small', shape'⟩ <;>
    rw [shape, shape'] at same <;> obtain ⟨first, same⟩ := List.cons.inj same
  · exact ⟨first, same⟩
  · exact absurd first other
  · exact absurd first other
  · exact absurd first.symm other'
  · obtain ⟨second, rests⟩ := List.cons.inj same
    exact ⟨(letters _ member).2 _ member' second, rests⟩
  · exact absurd (List.cons.inj same).1 (letters _ member).1
  · exact absurd first.symm other'
  · exact absurd (List.cons.inj same).1.symm (letters _ member').1
  · obtain ⟨codes, rests⟩ := hexDigits_inj small small' (List.cons.inj same).2
    exact ⟨Char.toNat_inj.mp codes, rests⟩

private theorem jsonChar_ne_nil (char : Char) : jsonChar false char ≠ [] := by
  rcases jsonChar_cases char with ⟨_, shape⟩ | ⟨_, _, shape⟩ | ⟨_, shape⟩ <;> simp [shape, unitEscape]

theorem flatMap_jsonChar_inj {body body' : List Char}
    (same : body.flatMap (jsonChar false) = body'.flatMap (jsonChar false)) : body = body' := by
  induction body generalizing body' with
  | nil =>
    cases body' with
    | nil => rfl
    | cons char body' => exact absurd (List.append_eq_nil_iff.mp same.symm).1 (jsonChar_ne_nil char)
  | cons char body ih =>
    cases body' with
    | nil => exact absurd (List.append_eq_nil_iff.mp same).1 (jsonChar_ne_nil char)
    | cons char' body' =>
      obtain ⟨first, others⟩ := jsonChar_inj same
      rw [first, ih others]

end ScriptKit.Text
