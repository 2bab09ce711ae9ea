import ScriptKit.Token.Stream

/-!
The terminals of the script language as languages, and what the scanner finds of them: at the start of
a text it finds the longest text of any terminal, and reads it as the lexeme that it spells.
-/
namespace ScriptKit

def reservedWords : List String :=
  ["let", "if", "else", "while", "function", "return", "true", "false", "print", "import"]

/-- `lexeme.Spelled text`: the text is in the language of a terminal, and the lexeme is what it says.
The text of a reserved word spells that word, and also a name. -/
inductive Lexeme.Spelled : Lexeme → List Char → Prop where
  | integer (nonempty : digits ≠ []) (all : ∀ char ∈ digits, char.isDigit = true) :
      Spelled (.number (.integer (natOfDigits digits))) digits
  | decimal (nonempty : whole ≠ []) (all : ∀ char ∈ whole, char.isDigit = true)
      (all' : ∀ char ∈ fraction, char.isDigit = true) :
      Spelled (.number (.double (Decimal.toDouble false
        ⟨natOfDigits (whole ++ fraction), -(fraction.length : Int)⟩))) (whole ++ '.' :: fraction)
  | string (unquoted : '"' ∉ body) :
      Spelled (.string (String.ofList body)) ('"' :: (body ++ ['"']))
  | name (start : isNameStart first = true) (all : ∀ char ∈ others, isNameChar char = true) :
      Spelled (.identifier (String.ofList (first :: others))) (first :: others)
  | truth : Spelled (.boolean true) "true".toList
  | falsehood : Spelled (.boolean false) "false".toList
  | keyword : Spelled (.keyword word) word.text.toList
  | symbol : Spelled (.symbol sign) sign.text.toList

theorem Lexeme.Spelled.ne_nil (spelled : Spelled lexeme text) : text ≠ [] := by
  cases spelled with
  | integer nonempty all => exact nonempty
  | @keyword word => cases word <;> decide
  | @symbol sign => cases sign <;> decide
  | _ => simp

/-- The text is in the language of some terminal: that of a lexeme, white space or a comment. -/
inductive Matched : List Char → Prop where
  | lexeme (spelled : Lexeme.Spelled lexeme text) : Matched text
  | space (nonempty : text ≠ []) (all : ∀ char ∈ text, isSpace char = true) : Matched text
  | comment (line : '\n' ∉ body) : Matched ('/' :: '/' :: body)

/-- Of the words that a text can spell, a name gives way to a reserved one. -/
def Lexeme.Preferred (lexeme : Lexeme) : Prop :=
  ∀ name, lexeme = .identifier name → name ∉ reservedWords

/-- Too many digits for an integer. -/
def Oversized (text : List Char) : Prop :=
  (∀ char ∈ text, char.isDigit = true) ∧ integerDigitLimit < text.length

instance : DecidablePred Oversized := fun _ => inferInstanceAs (Decidable (_ ∧ _))

/-- The rest does not start with a character that can make a terminal before it longer. -/
def Apart (rest : List Char) : Prop :=
  ∀ char ∈ rest.head?, isNameChar char = false ∧ char ≠ '.' ∧ char ≠ '=' ∧ char ≠ '/'

instance : DecidablePred Apart
  | [] => .isTrue nofun
  | char :: _ =>
    decidable_of_iff (isNameChar char = false ∧ char ≠ '.' ∧ char ≠ '=' ∧ char ≠ '/')
      (by simp [Apart])

theorem Apart.takeWhile_eq_nil {keep : Char → Bool} (apart : Apart rest)
    (named : ∀ char, keep char = true → isNameChar char = true) : rest.takeWhile keep = [] := by
  cases rest with
  | nil => rfl
  | cons char rest =>
    refine List.takeWhile_cons_of_neg fun kept => ?_
    have other := (apart char rfl).1
    rw [named char kept] at other
    cases other

theorem isNameChar_of_isDigit (char : Char) (digit : char.isDigit = true) :
    isNameChar char = true := by
  simp [isNameChar, Char.isAlphanum, digit]

theorem takeWhile_stop {keep : Char → Bool} {text : List Char}
    (all : ∀ char ∈ text, keep char = true) (stop : keep char = false) (more : List Char) :
    (text ++ char :: more).takeWhile keep = text ∧
      (text ++ char :: more).dropWhile keep = char :: more := by
  rw [List.takeWhile_append_of_pos all, List.dropWhile_append_of_pos all]
  simp [stop]

theorem not_isDigit_of_isNameStart {char : Char} (start : isNameStart char = true) :
    char.isDigit = false := by
  by_cases underscore : char = '_'
  · subst underscore
    decide
  · unfold isNameStart Char.isAlpha Char.isUpper Char.isLower at start
    unfold Char.isDigit
    grind

section
variable {char : Char} {rest : List Char}

theorem terminalAt?_digit (digit : char.isDigit = true) (rest : List Char) :
    terminalAt? (char :: rest) =
      match rest.dropWhile Char.isDigit with
      | '.' :: fraction =>
        some (.decimal, (rest.takeWhile Char.isDigit).length + 1 + 1 +
          (fraction.takeWhile Char.isDigit).length)
      | _ => some (.integer, (rest.takeWhile Char.isDigit).length + 1) :=
  if_pos digit

private theorem terminalAt?_name (start : isNameStart char = true) :
    terminalAt? (char :: rest) = some (.word, (rest.takeWhile isNameChar).length + 1) := by
  rw [terminalAt?, if_neg (by simp [not_isDigit_of_isNameStart start]), if_pos start]

theorem terminalAt?_quote (rest : List Char) :
    terminalAt? ('"' :: rest) =
      if (rest.takeWhile (· != '"')).length < rest.length then
        some (.string, (rest.takeWhile (· != '"')).length + 2)
      else none := by
  rw [terminalAt?, if_neg (by decide), if_neg (by decide), if_pos rfl]

private theorem symbolAt?_first (found : symbolAt? (char :: rest) = some sign) :
    char.isDigit = false ∧ isNameStart char = false ∧ char ≠ '"' := by
  unfold symbolAt? at found
  split at found
  case h_21 => cases found
  all_goals
    rename_i same
    cases same
    decide

private theorem symbolAt?_shape (found : symbolAt? source = some sign) :
    ∃ rest, source = sign.text.toList ++ rest := by
  unfold symbolAt? at found
  split at found
  case h_21 => cases found
  all_goals
    cases found
    exact ⟨_, rfl⟩

theorem terminalAt?_symbol (found : symbolAt? (char :: rest) = some sign) :
    terminalAt? (char :: rest) = some (.symbol sign, sign.text.length) := by
  obtain ⟨notDigit, notName, notQuote⟩ := symbolAt?_first found
  rw [terminalAt?, if_neg (by simp [notDigit]), if_neg (by simp [notName]), if_neg notQuote, found]

end

/-- Three signs are also the beginning of longer ones. -/
theorem symbolAt?_extensible
    (extends' : (plain, longer) ∈
      [(Symbol.assign, Symbol.equals), (.greater, .greaterEquals), (.less, .lessEquals)])
    (rest : List Char) :
    symbolAt? (plain.text.toList ++ rest) =
      if rest.head? = some '=' then some longer else some plain := by
  simp only [List.mem_cons, Prod.mk.injEq, List.not_mem_nil, or_false] at extends'
  rcases extends' with ⟨rfl, rfl⟩ | ⟨rfl, rfl⟩ | ⟨rfl, rfl⟩
  all_goals
    cases rest with
    | nil => rfl
    | cons char rest => by_cases same : char = '=' <;> simp [Symbol.text, symbolAt?, same]

/-- Where the text of a symbol stands, a symbol is found that is no shorter; if it is no longer, it is
the same. -/
theorem symbolAt?_text (sign : Symbol) (rest : List Char) :
    ∃ found, symbolAt? (sign.text.toList ++ rest) = some found ∧
      sign.text.length ≤ found.text.length ∧
      (Apart rest → found.text.length = sign.text.length) ∧
      (found.text.length = sign.text.length → found = sign) := by
  have extensible (longer : Symbol) (more : sign.text.length < longer.text.length)
      (found : symbolAt? (sign.text.toList ++ rest) =
        if rest.head? = some '=' then some longer else some sign) :
      ∃ found, symbolAt? (sign.text.toList ++ rest) = some found ∧
        sign.text.length ≤ found.text.length ∧
        (Apart rest → found.text.length = sign.text.length) ∧
        (found.text.length = sign.text.length → found = sign) := by
    rw [found]
    split
    · rename_i extended
      exact ⟨longer, rfl, Nat.le_of_lt more, fun apart => absurd rfl (apart '=' extended).2.2.1,
        fun same => absurd same (Nat.ne_of_gt more)⟩
    · exact ⟨sign, rfl, Nat.le_refl _, fun _ => rfl, fun _ => rfl⟩
  cases sign with
  | assign => exact extensible .equals (by decide) (symbolAt?_extensible (by decide) rest)
  | greater => exact extensible .greaterEquals (by decide) (symbolAt?_extensible (by decide) rest)
  | less => exact extensible .lessEquals (by decide) (symbolAt?_extensible (by decide) rest)
  | _ => exact ⟨_, rfl, Nat.le_refl _, fun _ => rfl, fun _ => rfl⟩

theorem Lexeme.ofWord_name (unreserved : word ∉ reservedWords) : ofWord word = .identifier word := by
  have others : Keyword.all.find? (fun candidate => candidate.text == word) = none := by
    simp only [List.find?_eq_none, beq_iff_eq]
    rintro candidate _ rfl
    refine unreserved ?_
    cases candidate <;> decide
  have notTrue : word ≠ "true" := by
    rintro rfl
    exact unreserved (by decide)
  have notFalse : word ≠ "false" := by
    rintro rfl
    exact unreserved (by decide)
  rw [ofWord, if_neg notTrue, if_neg notFalse, others]

theorem Lexeme.ofWord_keyword (word : Keyword) : ofWord word.text = .keyword word := by
  cases word <;> decide

/-- A text with the form of a name. -/
inductive NameText : List Char → Prop where
  | intro (start : isNameStart first = true) (all : ∀ char ∈ others, isNameChar char = true) :
      NameText (first :: others)

theorem Keyword.nameText (word : Keyword) : NameText word.text.toList := by
  cases word <;> exact .intro rfl (List.all_eq_true.mp rfl)

private theorem reserved_spelled (reserved : word ∈ reservedWords) :
    ∃ lexeme, Lexeme.Spelled lexeme word.toList ∧ lexeme.Preferred := by
  simp only [reservedWords, List.mem_cons, List.not_mem_nil, or_false] at reserved
  rcases reserved with rfl | rfl | rfl | rfl | rfl | rfl | rfl | rfl | rfl | rfl
  · exact ⟨.keyword .letWord, .keyword, nofun⟩
  · exact ⟨.keyword .ifWord, .keyword, nofun⟩
  · exact ⟨.keyword .elseWord, .keyword, nofun⟩
  · exact ⟨.keyword .whileWord, .keyword, nofun⟩
  · exact ⟨.keyword .functionWord, .keyword, nofun⟩
  · exact ⟨.keyword .returnWord, .keyword, nofun⟩
  · exact ⟨_, .truth, nofun⟩
  · exact ⟨_, .falsehood, nofun⟩
  · exact ⟨.keyword .printWord, .keyword, nofun⟩
  · exact ⟨.keyword .importWord, .keyword, nofun⟩

/-- A text with the form of a name spells a reserved word or a name. -/
theorem NameText.spells (named : NameText text) :
    ∃ lexeme, Lexeme.Spelled lexeme text ∧ lexeme.Preferred := by
  by_cases reserved : String.ofList text ∈ reservedWords
  · have spelled := reserved_spelled reserved
    rwa [String.toList_ofList] at spelled
  · cases named with
    | intro start all =>
      refine ⟨_, .name start all, ?_⟩
      rintro name ⟨⟩
      exact reserved

theorem NameText.scanned (named : NameText text) (rest : List Char) :
    ∃ length, terminalAt? (text ++ rest) = some (.word, length) ∧ text.length ≤ length ∧
      (Apart rest → length = text.length) := by
  cases named with
  | @intro first others start all =>
    refine ⟨(others ++ rest.takeWhile isNameChar).length + 1, ?_, ?_, fun apart => ?_⟩
    · rw [← List.takeWhile_append_of_pos all]
      exact terminalAt?_name start
    · rw [List.length_append, List.length_cons]
      omega
    · rw [apart.takeWhile_eq_nil fun _ => id, List.append_nil, List.length_cons]

/-- Where a text of a terminal stands, the scanner finds one that is no shorter, and no longer if what
follows is apart; if it is no longer, it is read as the lexeme it spells. -/
theorem Lexeme.Spelled.scanned (spelled : Spelled lexeme text) (rest : List Char) :
    ∃ terminal length, terminalAt? (text ++ rest) = some (terminal, length) ∧
      text.length ≤ length ∧ (Apart rest → length = text.length) ∧
      (length = text.length → lexeme.Preferred → ¬ Oversized text →
        terminal.read text = .ok lexeme) := by
  have worded {lexeme : Lexeme} {text : List Char} (named : NameText text)
      (reads : lexeme.Preferred → ofWord (String.ofList text) = lexeme) :
      ∃ terminal length, terminalAt? (text ++ rest) = some (terminal, length) ∧
        text.length ≤ length ∧ (Apart rest → length = text.length) ∧
        (length = text.length → lexeme.Preferred → ¬ Oversized text →
          terminal.read text = .ok lexeme) := by
    obtain ⟨length, found, reaches, alone⟩ := named.scanned rest
    exact ⟨_, length, found, reaches, alone,
      fun _ preferred _ => congrArg Except.ok (reads preferred)⟩
  cases spelled with
  | integer nonempty all =>
    obtain ⟨digit, digits, rfl⟩ := List.exists_cons_of_ne_nil nonempty
    have inner : ∀ char ∈ digits, char.isDigit = true :=
      fun char member => all char (List.mem_cons_of_mem digit member)
    rw [List.cons_append, terminalAt?_digit (all digit List.mem_cons_self) _,
      List.takeWhile_append_of_pos inner, List.dropWhile_append_of_pos inner, List.length_append]
    split
    · rename_i fraction dropped
      refine ⟨_, _, rfl, by simp; omega, fun apart => ?_, fun same => ?_⟩
      · have cut := rest.takeWhile_append_dropWhile (p := Char.isDigit)
        rw [apart.takeWhile_eq_nil isNameChar_of_isDigit, dropped, List.nil_append] at cut
        rw [← cut] at apart
        exact absurd rfl (apart '.' rfl).2.1
      · simp at same
        omega
    · refine ⟨_, _, rfl, by simp, fun apart => ?_, fun _ _ fits => ?_⟩
      · simp [apart.takeWhile_eq_nil isNameChar_of_isDigit]
      · exact if_neg fun long => fits ⟨all, long⟩
  | @decimal whole fraction nonempty all all' =>
    obtain ⟨digit, digits, rfl⟩ := List.exists_cons_of_ne_nil nonempty
    have point : '.'.isDigit = false := by decide
    obtain ⟨taken, dropped⟩ := takeWhile_stop
      (fun char member => all char (List.mem_cons_of_mem digit member)) point (fraction ++ rest)
    have found := terminalAt?_digit (all digit List.mem_cons_self)
      (digits ++ '.' :: (fraction ++ rest))
    rw [dropped, taken] at found
    refine ⟨_, _, by simpa using found, ?_, fun apart => ?_, fun _ _ _ => ?_⟩
    · simp [List.takeWhile_append_of_pos all']
      omega
    · simp [List.takeWhile_append_of_pos all', apart.takeWhile_eq_nil isNameChar_of_isDigit]
      omega
    · obtain ⟨taken, dropped⟩ := takeWhile_stop all point fraction
      simp only [Terminal.read, taken, dropped]
      rfl
  | @string body unquoted =>
    have inner : ∀ char ∈ body, (char != '"') = true := by
      intro char member
      simp only [bne_iff_ne]
      rintro rfl
      exact unquoted member
    obtain ⟨taken, _⟩ := takeWhile_stop inner (by decide : ('"' != '"') = false) rest
    have found := terminalAt?_quote (body ++ '"' :: rest)
    rw [taken, if_pos (by simp)] at found
    refine ⟨_, _, by simpa using found, by simp, fun _ => by simp, fun _ _ _ => ?_⟩
    simp [Terminal.read]
  | name start all =>
    exact worded (.intro start all) fun preferred => ofWord_name (preferred _ rfl)
  | truth => exact worded (.intro rfl (List.all_eq_true.mp rfl)) fun _ => by decide
  | falsehood => exact worded (.intro rfl (List.all_eq_true.mp rfl)) fun _ => by decide
  | @keyword word =>
    refine worded word.nameText fun _ => ?_
    rw [String.ofList_toList, ofWord_keyword]
  | @symbol sign =>
    obtain ⟨found, scanned, reaches, alone, same⟩ := symbolAt?_text sign rest
    have shape : ∃ first others, sign.text.toList = first :: others := by
      cases sign <;> exact ⟨_, _, rfl⟩
    obtain ⟨first, others, shape⟩ := shape
    rw [shape, List.cons_append] at scanned ⊢
    have length : (first :: others).length = sign.text.length := by rw [← shape, String.length_toList]
    refine ⟨_, _, terminalAt?_symbol scanned, by omega, fun apart => ?_, fun equal _ _ => ?_⟩
    · rw [alone apart, length]
    · rw [same (by omega)]
      rfl

/-- What the scanner finds is a text of a terminal. -/
theorem terminalAt?_spelled (found : terminalAt? source = some (terminal, length)) :
    ∃ lexeme text rest, source = text ++ rest ∧ length = text.length ∧
      Lexeme.Spelled lexeme text ∧ lexeme.Preferred := by
  cases source with
  | nil => cases found
  | cons char rest =>
    by_cases digit : char.isDigit = true
    · rw [terminalAt?_digit digit] at found
      have whole : ∀ other ∈ char :: rest.takeWhile Char.isDigit, other.isDigit = true := by
        rintro other (_ | ⟨_, member⟩)
        · exact digit
        · exact List.all_eq_true.mp List.all_takeWhile other member
      have split := rest.takeWhile_append_dropWhile (p := Char.isDigit)
      split at found
      · rename_i fraction dropped
        cases found
        refine ⟨_, (char :: rest.takeWhile Char.isDigit) ++ '.' :: fraction.takeWhile Char.isDigit,
          fraction.dropWhile Char.isDigit, ?_, ?_, .decimal (by simp) whole
          (List.all_eq_true.mp List.all_takeWhile), by rintro _ ⟨⟩⟩
        · rw [dropped] at split
          simp [split]
        · simp
          omega
      · cases found
        exact ⟨_, char :: rest.takeWhile Char.isDigit, rest.dropWhile Char.isDigit, by simp, rfl,
          .integer (by simp) whole, by rintro _ ⟨⟩⟩
    by_cases start : isNameStart char = true
    · rw [terminalAt?_name start] at found
      cases found
      obtain ⟨lexeme, spelled, preferred⟩ :=
        (NameText.intro start (List.all_eq_true.mp (List.all_takeWhile (l := rest)))).spells
      exact ⟨lexeme, char :: rest.takeWhile isNameChar, rest.dropWhile isNameChar, by simp, rfl,
        spelled, preferred⟩
    by_cases quote : char = '"'
    · subst quote
      rw [terminalAt?_quote] at found
      split at found
      · rename_i shorter
        cases found
        have split := rest.takeWhile_append_dropWhile (p := (· != '"'))
        cases dropped : rest.dropWhile (· != '"') with
        | nil =>
          rw [dropped, List.append_nil] at split
          rw [split] at shorter
          exact absurd shorter (Nat.lt_irrefl _)
        | cons stop more =>
          have closing : stop = '"' := by
            have := List.head?_dropWhile_not (· != '"') rest
            simpa [dropped] using this
          rw [dropped, closing] at split
          refine ⟨_, '"' :: (rest.takeWhile (· != '"') ++ ['"']), more, by simp [split], by simp,
            .string ?_, by rintro _ ⟨⟩⟩
          intro member
          have := List.all_eq_true.mp List.all_takeWhile _ member
          simp at this
      · cases found
    · have signed : ∃ sign, symbolAt? (char :: rest) = some sign := by
        rw [terminalAt?, if_neg digit, if_neg start, if_neg quote] at found
        split at found
        · exact ⟨_, ‹_›⟩
        · cases found
      obtain ⟨sign, signed⟩ := signed
      rw [terminalAt?_symbol signed] at found
      cases found
      obtain ⟨more, shape⟩ := symbolAt?_shape signed
      exact ⟨_, sign.text.toList, more, shape, String.length_toList.symm, .symbol, by rintro _ ⟨⟩⟩

/-- What is read is not oversized. -/
theorem Terminal.read_fits {text : List Char}
    (found : terminalAt? (text ++ rest) = some (terminal, text.length))
    (read : terminal.read text = .ok lexeme) : ¬ Oversized text := by
  rintro ⟨all, long⟩
  cases text with
  | nil => cases long
  | cons digit digits =>
    have inner : ∀ char ∈ digits, char.isDigit = true :=
      fun char member => all char (List.mem_cons_of_mem digit member)
    rw [List.cons_append, terminalAt?_digit (all digit List.mem_cons_self),
      List.takeWhile_append_of_pos inner] at found
    split at found
    · simp at found
      omega
    · obtain ⟨rfl, _⟩ := Prod.mk.inj (Option.some.inj found)
      simp only [Terminal.read, if_pos long] at read
      cases read

theorem Terminal.read_eq_error {terminal : Terminal} (read : terminal.read text = .error fault) :
    fault = .oversizedInteger text.length := by
  cases terminal with
  | integer =>
    simp only [Terminal.read] at read
    split at read
    · cases read
      rfl
    · cases read
  | _ => cases read

end ScriptKit
