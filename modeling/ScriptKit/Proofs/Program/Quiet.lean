import ScriptKit.Proofs.Program.Plain
import ScriptKit.Proofs.Program.Speech

/-!
Emitted text is read without imports, or not at all. This holds of every fragment that is emitted for
a program, also where a literal is written differently in the two languages, and whatever comes
before and after the fragment.
-/
namespace ScriptKit

/-- Before a rest of which `next` holds, the text is refused or read as a phrase without imports. -/
def Quiet (next : List Char → Prop) (text : String) : Prop :=
  ∃ phrase, Lexes True next text phrase ∧ .keyword .importWord ∉ phrase

/-- The same, whatever follows the text. -/
abbrev Mute (text : String) : Prop := Quiet Anywhere text

theorem Quiet.empty : Mute "" := ⟨[], closed_empty, List.not_mem_nil⟩

theorem Quiet.append (first : Mute text) (second : Quiet next text') :
    Quiet next (text ++ text') := by
  obtain ⟨phrase, lexes, silent⟩ := first
  obtain ⟨phrase', lexes', silent'⟩ := second
  exact ⟨phrase ++ phrase', lexes.before lexes', by simp [silent, silent']⟩

theorem Lexeme.written_word {text : List Char} (named : NameText text)
    (unreserved : String.ofList text ∉ reservedWords) :
    (Lexeme.identifier (String.ofList text)).Written := by
  cases named with
  | intro start all =>
    refine ⟨_, .name start all, ?_, ?_⟩
    · rintro name ⟨⟩
      exact unreserved
    · intro tooLong
      have digit := tooLong.1 _ List.mem_cons_self
      rw [not_isDigit_of_isNameStart start] at digit
      cases digit

private theorem quiet_word {text : List Char} (named : NameText text)
    (unreserved : String.ofList text ∉ reservedWords) : Quiet Apart (String.ofList text) :=
  ⟨_, lexes_name (Lexeme.written_word named unreserved), by simp⟩

private theorem gapLength_digit (digit : char.isDigit = true) (rest : List Char) :
    gapLength false (char :: rest) = 0 := by
  have solid : isSpace char = false := by
    rw [← Bool.not_eq_true]
    intro blank
    have found := terminalAt?_digit digit rest
    rw [terminalAt?_space blank] at found
    split at found <;> cases found
  have other : char ≠ '/' := by
    rintro rfl
    cases digit
  simp [gapLength, solid, other]

/-- The rest does not start with a character that can make a number before it longer. -/
def Ended (rest : List Char) : Prop := ∀ char ∈ rest.head?, char.isDigit = false ∧ char ≠ '.'

private theorem lexes_digit (digit : first.isDigit = true) :
    Lexes refusable Ended (String.ofList [first]) [.number (.integer (natOfDigits [first]))] := by
  have short : ¬ Oversized [first] := fun tooLong => absurd tooLong.2 (by simp [integerDigitLimit])
  apply Munched.lexes _ fun tooLong => absurd tooLong short
  intro rest ended
  have all : ∀ char ∈ [first], char.isDigit = true := List.forall_mem_singleton.mpr digit
  apply Munched.of_found (.integer (by simp) all) nofun (gapLength_digit digit rest)
  rw [List.singleton_append, terminalAt?_digit digit]
  cases rest with
  | nil => rfl
  | cons char rest => simp [ended char rfl]

private theorem lexes_decimal (digit : first.isDigit = true)
    (all : ∀ char ∈ others, char.isDigit = true) :
    ∃ value, Lexes refusable Ended (String.ofList (first :: '.' :: others)) [.number value] := by
  have whole : ∀ char ∈ [first], char.isDigit = true := List.forall_mem_singleton.mpr digit
  obtain ⟨value, spelled⟩ : ∃ value, (Lexeme.number value).Spelled ([first] ++ '.' :: others) :=
    ⟨_, .decimal (by simp) whole all⟩
  have stop : Char.isDigit '.' = false := by decide
  have munched : ∀ rest, Ended rest → Munched (.number value) ([first] ++ '.' :: others) rest := by
    intro rest ended
    have none : rest.takeWhile Char.isDigit = [] := by
      cases rest with
      | nil => rfl
      | cons char rest => simp [ended char rfl]
    apply Munched.of_found spelled nofun (gapLength_digit digit _)
    rw [List.append_assoc, List.singleton_append, terminalAt?_digit digit]
    simp [stop, none, List.takeWhile_append_of_pos all]
    exact ⟨rfl, by omega⟩
  refine ⟨value, Munched.lexes munched fun tooLong => ?_⟩
  have point := tooLong.1 '.' (by simp)
  cases point

/-- The number before an exponent has one digit, or one digit before the point. -/
theorem lexes_mantissa (all : ∀ char ∈ first :: others, char.isDigit = true) :
    ∃ value, Lexes refusable Ended
      (String.ofList (first :: if others.isEmpty then [] else '.' :: others)) [.number value] := by
  obtain ⟨digit, digits⟩ := List.forall_mem_cons.mp all
  cases others with
  | nil => exact ⟨_, lexes_digit digit⟩
  | cons next others => exact lexes_decimal digit digits

private theorem lexes_digits (nonempty : digits ≠ []) (all : ∀ char ∈ digits, char.isDigit = true) :
    ∃ value, Lexes True Apart (String.ofList digits) [.number value] := by
  refine ⟨.integer (natOfDigits digits), Lexeme.Spelled.lexes ?_ nofun fun _ => trivial⟩
  rw [String.toList_ofList]
  exact .integer nonempty all

private theorem exponentText_shape (exponent : Int) :
    ∃ sign ∈ [Symbol.plus, .minus], ∃ digits,
      digits ≠ [] ∧ (∀ char ∈ digits, char.isDigit = true) ∧
      String.ofList (exponentText exponent) = "e" ++ sign.text ++ String.ofList digits := by
  let digits := Nat.toDigits 10 exponent.natAbs
  have all : ∀ char ∈ digits, char.isDigit = true :=
    fun char => Nat.isDigit_of_mem_toDigits (by decide) (by decide)
  have padded := List.forall_mem_append.mpr ⟨zeros_digits (2 - digits.length), all⟩
  have nonempty : zeros (2 - digits.length) ++ digits ≠ [] := by simp [digits]
  by_cases negative : exponent < 0
  · refine ⟨.minus, by decide, _, nonempty, padded, ?_⟩
    simp [← String.toList_inj, exponentText, negative, Symbol.text, digits]
  · refine ⟨.plus, by decide, _, nonempty, padded, ?_⟩
    simp [← String.toList_inj, exponentText, negative, Symbol.text, digits]

/-- The exponent is read as a name, a sign and a number. -/
theorem lexes_exponent (exponent : Int) :
    ∃ sign value, Lexes True Apart (String.ofList (exponentText exponent))
      [.identifier "e", .symbol sign, .number value] := by
  have named : Lexes True Apart "e" [.identifier "e"] :=
    lexes_name (Lexeme.written_word (.intro (by decide) nofun) (by decide))
  obtain ⟨sign, member, digits, nonempty, all, shape⟩ := exponentText_shape exponent
  obtain ⟨value, number⟩ := lexes_digits nonempty all
  have apart : ∀ rest, Anywhere rest → Apart (sign.text.toList ++ rest) := by
    simp only [List.mem_cons, List.not_mem_nil, or_false] at member
    rcases member with rfl | rfl
    · rintro rest _ _ ⟨⟩
      decide
    · rintro rest _ _ ⟨⟩
      decide
  have signed := named.join (closed_lone (List.mem_append_right marks member)) apart
  exact ⟨sign, value, (signed.before number).of_eq shape.symm⟩

private theorem quiet_scientific (fits : Representable units)
    (present : 'e' ∈ magnitudeText units) :
    Quiet Apart (String.ofList (magnitudeText units)) := by
  obtain ⟨first, others, point, significant, shape⟩ := magnitudeText_scientific fits present
  obtain ⟨value, mantissa⟩ := lexes_mantissa significant.all
  obtain ⟨sign, value', exponent⟩ := lexes_exponent (point - 1)
  refine ⟨_, (mantissa.join exponent ?_).of_eq ?_, by simp⟩
  -- The letter of the exponent ends the number before it.
  · intro rest apart
    rw [String.toList_ofList]
    rintro char ⟨⟩
    decide
  · rw [← String.ofList_append, ← shape]

private theorem quiet_magnitude (fits : Representable units) :
    Quiet Apart (String.ofList (magnitudeText units)) := by
  by_cases scientific : 'e' ∈ magnitudeText units
  · exact quiet_scientific fits scientific
  · have spelled := (spelled_magnitude fits scientific).1
    rw [← String.toList_ofList (l := magnitudeText units)] at spelled
    exact ⟨_, spelled.lexes nofun fun _ => trivial, by simp⟩

theorem Quiet.signed (quiet : Quiet Apart text) (negative : Bool) :
    Quiet Apart ((if negative then "-" else "") ++ text) := by
  cases negative with
  | true =>
    have minus : Closed True "-" [.symbol .minus] := closed_lone (by decide)
    exact Quiet.append ⟨_, minus, by simp⟩ quiet
  | false => exact Quiet.empty.append quiet

private theorem quiet_double (value : Double) : Quiet Apart (Json.doubleText value) := by
  cases value with
  | nan => exact quiet_word (.intro rfl (List.all_eq_true.mp rfl)) (by decide)
  | infinite negative =>
    have infinity : Quiet Apart "Infinity" :=
      quiet_word (.intro rfl (List.all_eq_true.mp rfl)) (by decide)
    exact infinity.signed negative
  | finite negative units fits =>
    have shape : Json.doubleText (.finite negative units fits) =
        (if negative then "-" else "") ++ String.ofList (magnitudeText units) := by
      cases negative <;> simp [Json.doubleText, Double.toText]
    rw [shape]
    exact (quiet_magnitude fits).signed negative

private theorem quiet_string (written : (Lexeme.string value).Written) :
    Quiet Apart (Text.jsonQuoted false value) := by
  obtain ⟨text, spelled, _, _⟩ := written
  cases spelled with
  | @string body unquoted =>
    have spelled := Lexeme.Spelled.string (Text.quote_not_mem_flatMap unquoted)
    rw [← Text.toList_jsonQuoted] at spelled
    exact ⟨_, spelled.lexes (by rintro _ ⟨⟩) fun _ => trivial, by simp⟩

theorem Literal.quiet (value : Literal) (written : value.lexeme.Written) :
    Quiet Apart value.emit := by
  cases value with
  | boolean value => exact ⟨_, lexes_boolean value, by simp⟩
  | number value =>
    cases value with
    | integer value => exact ⟨_, lexes_integer written, by simp⟩
    | double value => exact quiet_double value
  | string value => exact quiet_string written

/-- Names and literals that were read from a text are read again without imports. -/
theorem exists_speech : ∃ spoken, Speech (scanner True) Lexeme.Written spoken ∧
    ∀ value, .keyword .importWord ∉ spoken value := by
  -- A literal may be refused, and then any phrase will do, so the phrases are chosen and not computed.
  have each (value : Literal) : ∃ phrase : List Lexeme,
      (value.lexeme.Written → Lexes True Apart value.emit phrase) ∧
        .keyword .importWord ∉ phrase := by
    by_cases written : value.lexeme.Written
    · obtain ⟨phrase, lexes, silent⟩ := value.quiet written
      exact ⟨phrase, fun _ => lexes, silent⟩
    · exact ⟨[], fun given => absurd given written, List.not_mem_nil⟩
  obtain ⟨spoken, all⟩ := Classical.axiomOfChoice each
  exact ⟨spoken, ⟨fun value => (all value).1, fun _ => lexes_name⟩, fun value => (all value).2⟩

private theorem commas_silent {phrases : List (List Lexeme)}
    (silent : ∀ phrase ∈ phrases, .keyword .importWord ∉ phrase) :
    .keyword .importWord ∉ commas phrases := by
  cases phrases with
  | nil => exact List.not_mem_nil
  | cons first others =>
    obtain ⟨one, all⟩ := List.forall_mem_cons.mp silent
    simp only [commas, List.mem_append, List.mem_flatMap, not_or, not_exists, not_and]
    refine ⟨one, fun phrase member => ?_⟩
    simp [all phrase member]

section
variable {spoken : Literal → List Lexeme}

mutual

theorem Bare.Expression.phrase_silent (silent : ∀ value, .keyword .importWord ∉ spoken value) :
    (tree : Bare.Expression) → .keyword .importWord ∉ tree.phrase spoken
  | .literal value => silent value
  | .identifier name => by simp [Bare.Expression.phrase]
  | .binary operator left right => by
    have first := left.phrase_silent silent
    have second := right.phrase_silent silent
    simp [Bare.Expression.phrase, Infix.phrase, first, second]
  | .logical operator left right => by
    have first := left.phrase_silent silent
    have second := right.phrase_silent silent
    simp [Bare.Expression.phrase, Infix.phrase, first, second]
  | .call callee arguments => by
    have inner := commas_silent (Bare.Expression.phraseAll_silent silent arguments)
    simp [Bare.Expression.phrase, inner]

theorem Bare.Expression.phraseAll_silent (silent : ∀ value, .keyword .importWord ∉ spoken value) :
    (trees : List Bare.Expression) →
    ∀ phrase ∈ Bare.Expression.phraseAll spoken trees, .keyword .importWord ∉ phrase
  | [] => nofun
  | tree :: trees =>
    List.forall_mem_cons.mpr
      ⟨tree.phrase_silent silent, Bare.Expression.phraseAll_silent silent trees⟩

end

end

theorem Expression.quiet_emit (expression : Expression)
    (used : expression.bare.Uses Lexeme.Written) : Quiet Apart expression.emit := by
  obtain ⟨spoken, speech, silent⟩ := exists_speech
  rw [expression.emit_eq]
  exact ⟨_, expression.bare.lexes speech used, expression.bare.phrase_silent silent⟩

private theorem parameters_silent (names : List String) :
    .keyword .importWord ∉ Grammar.parameters names := by
  rw [← commas_parameters]
  apply commas_silent
  simp

/-- What prints is refused: a point stands after a name. -/
theorem quiet_print (code : String) : Mute ("console.log(" ++ code) := by
  refine ⟨[], fun rest _ position => .inr ⟨trivial, ?_⟩, List.not_mem_nil⟩
  let following := ("log(" ++ code).toList ++ rest
  have stuck : Stuck ('.' :: following) := (stuck_iff _).mpr ⟨rfl, rfl⟩
  have named : Munched (.identifier "console") "console".toList ('.' :: following) := by
    refine .of_found (.name rfl (List.all_eq_true.mp rfl)) ?_ rfl rfl
    rintro name ⟨⟩
    decide
  have reads := tokensFrom_munched position .nil named fun tooLong => absurd tooLong.2 (by decide)
  have refused := tokensFrom_stuck (position.advance "console".toList) .nil stuck
  rw [List.nil_append] at reads refused
  rw [List.nil_append, refused] at reads
  refine ⟨_, Eq.trans (congrArg (tokensFrom position) ?_) reads⟩
  simp [following]

def Fragment.Quiet : Fragment → Prop
  | .text code => Mute code
  | .site _ _ => True

private theorem quiet_text {code : String} (quiet : Mute code) :
    ∀ fragment ∈ [Fragment.text code], fragment.Quiet :=
  List.forall_mem_singleton.mpr quiet

private theorem braced_quiet {inner : List Fragment} (quiet : ∀ fragment ∈ inner, fragment.Quiet) :
    ∀ fragment ∈ braced inner, fragment.Quiet := by
  have opening : Mute "\x7b\n" := ⟨_, closed_braceOpen, by simp⟩
  have closing : Mute "\n\x7d" := ⟨_, closed_braceClose, by simp⟩
  exact List.forall_mem_cons.mpr
    ⟨opening, List.forall_mem_append.mpr ⟨quiet, quiet_text closing⟩⟩

mutual

theorem Statement.quiet_emit : (statement : Statement) → statement.bare.Uses Lexeme.Written →
    ∀ fragment ∈ statement.emit, fragment.Quiet
  | .declare _ name value, ⟨_, named, used⟩ => by
    obtain ⟨phrase, lexes, silent⟩ := value.quiet_emit used
    exact quiet_text ⟨_, closed_declare (lexes_name named) lexes, by simp [silent]⟩
  | .assign _ name value, ⟨named, used⟩ => by
    obtain ⟨phrase, lexes, silent⟩ := value.quiet_emit used
    exact quiet_text ⟨_, closed_assign (lexes_name named) lexes, by simp [silent]⟩
  | .block _ body, used => braced_quiet (Statement.quiet_emitAll body used)
  | .branch _ test consequent none, ⟨_, condition, inner⟩ => by
    obtain ⟨phrase, lexes, silent⟩ := test.quiet_emit condition
    have head : Mute ("if (" ++ test.emit ++ ") ") :=
      ⟨_, closed_if lexes, by simp [silent]⟩
    exact List.forall_mem_cons.mpr ⟨head, consequent.quiet_emit inner⟩
  | .branch _ test consequent (some alternate), ⟨_, condition, inner, _, other⟩ => by
    obtain ⟨phrase, lexes, silent⟩ := test.quiet_emit condition
    have head : Mute ("if (" ++ test.emit ++ ") ") :=
      ⟨_, closed_if lexes, by simp [silent]⟩
    have word : Mute " else " := ⟨_, closed_else, by simp⟩
    exact List.forall_mem_cons.mpr ⟨head, List.forall_mem_append.mpr ⟨consequent.quiet_emit inner,
      List.forall_mem_cons.mpr ⟨word, alternate.quiet_emit other⟩⟩⟩
  | .loop _ test body, ⟨_, condition, inner⟩ => by
    obtain ⟨phrase, lexes, silent⟩ := test.quiet_emit condition
    have head : Mute ("while (" ++ test.emit ++ ") ") :=
      ⟨_, closed_while lexes, by simp [silent]⟩
    exact List.forall_mem_cons.mpr ⟨head, body.quiet_emit inner⟩
  | .function _ name parameters body, ⟨_, named, names, inner⟩ => by
    have head : Mute
        ("function " ++ name ++ "(" ++ commaSeparated parameters ++ ") ") := by
      refine ⟨_, closed_header (lexes_name named) ?_, by simp [parameters_silent]⟩
      intro parameter member
      exact lexes_name (names parameter member)
    refine List.forall_mem_cons.mpr ⟨head, ?_⟩
    split
    · exact body.quiet_emit inner
    · exact braced_quiet (body.quiet_emit inner)
  | .giveBack _ argument, ⟨_, used⟩ => by
    obtain ⟨phrase, lexes, silent⟩ := argument.quiet_emit used
    exact quiet_text ⟨_, closed_return lexes, by simp [silent]⟩
  | .print _ argument, _ => by
    have refused := quiet_print (argument.emit ++ ");")
    rw [← String.append_assoc] at refused
    exact quiet_text refused
  | .importFile _ _, _ => List.forall_mem_singleton.mpr trivial
  | .call span callee arguments, ⟨named, all⟩ => by
    obtain ⟨spoken, speech, silent⟩ := exists_speech
    have call := lexes_call (lexes_name named) (Bare.Expression.lexesAll speech _ all)
    have inner := commas_silent (Bare.Expression.phraseAll_silent silent
      (Expression.bareAll arguments))
    rw [Statement.emit, Expression.emit_eq]
    exact quiet_text ⟨_, call.append closed_semicolon, by simp [Bare.Expression.phrase, inner]⟩

theorem Statement.quiet_emitAll : (statements : List Statement) →
    Bare.Statement.AllUse Lexeme.Written (Statement.bareAll statements) →
    ∀ fragment ∈ Statement.emitAll statements, fragment.Quiet
  | [], _ => nofun
  | [statement], ⟨first, _⟩ => statement.quiet_emit first
  | statement :: next :: rest, ⟨first, others⟩ => by
    have line : Mute "\n" := ⟨_, closed_line, by simp⟩
    exact List.forall_mem_append.mpr ⟨statement.quiet_emit first,
      List.forall_mem_cons.mpr ⟨line, Statement.quiet_emitAll (next :: rest) others⟩⟩

end

/-- Everything that is emitted for a source text is quiet. -/
theorem Program.quiet_emit (parsed : Program.ofSource source file = .ok program) :
    ∀ fragment ∈ program.emit, fragment.Quiet := by
  obtain ⟨stream, tokens, success⟩ := ofSource_eq_ok.mp parsed
  have used := (parseProgram_derives success).uses (tokensFrom_written tokens)
  exact Statement.quiet_emitAll program.body used

end ScriptKit
