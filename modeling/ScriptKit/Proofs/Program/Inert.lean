import ScriptKit.Proofs.Program.Quiet
import ScriptKit.Proofs.Program.RoundTrip

/-!
Texts that import nothing when they are read as source text. Emitted text is quiet up to the first
comment that stands for a file without text of its own, and a comment of that kind makes any text
unreadable: no phrase of the grammar has a multiplication sign right after a division sign.
-/
namespace ScriptKit

namespace Grammar

/-- Something comes after every division sign, and that is no multiplication sign. -/
def Divided (phrase : List Lexeme) : Prop :=
  ∀ before after, phrase = before ++ .symbol .divide :: after →
    ∃ next rest, after = next :: rest ∧ next ≠ .symbol .multiply

@[simp]
private theorem divided_nil : Divided [] := by
  intro before after same
  simp at same

@[simp]
private theorem divided_cons (other : lexeme ≠ .symbol .divide) :
    Divided (lexeme :: phrase) ↔ Divided phrase := by
  constructor
  · intro divided before after same
    exact divided (lexeme :: before) after (by rw [same]; rfl)
  · intro divided before after same
    cases before with
    | nil => exact absurd (List.cons.inj same).1 other
    | cons first before => exact divided before after (List.cons.inj same).2

private theorem divided_append (first : Divided phrase) :
    Divided (phrase ++ more) ↔ Divided more := by
  constructor
  · intro divided before after same
    exact divided (phrase ++ before) after (by rw [same, List.append_assoc])
  · intro second before after same
    rcases List.append_eq_append_iff.mp same with ⟨middle, _, split⟩ | ⟨middle, split, same⟩
    · exact second middle after split
    · cases middle with
      | nil => exact second [] after same.symm
      | cons lexeme middle =>
        obtain ⟨rfl, rfl⟩ := List.cons.inj same
        obtain ⟨next, rest, rfl, other⟩ := first before middle split
        exact ⟨next, rest ++ more, rfl, other⟩

/-- A phrase that can stand after a division sign. -/
structure Operand (phrase : List Lexeme) : Prop where
  divided : Divided phrase
  starts : ∃ first rest, phrase = first :: rest ∧ first ≠ .symbol .multiply

theorem Operand.divide (operand : Operand phrase) : Divided (.symbol .divide :: phrase) := by
  intro before after same
  cases before with
  | nil =>
    obtain ⟨_, rfl⟩ := List.cons.inj same
    exact operand.starts
  | cons first before => exact operand.divided before after (List.cons.inj same).2

theorem Operand.join (left : Operand first) (sign : Symbol) (right : Operand second) :
    Operand (first ++ .symbol sign :: second) := by
  have signed : Divided (.symbol sign :: second) := by
    by_cases division : sign = .divide
    · subst division
      exact right.divide
    · simp [division, right.divided]
  obtain ⟨lexeme, rest, rfl, other⟩ := left.starts
  refine ⟨(divided_append left.divided).mpr signed, lexeme, rest ++ .symbol sign :: second, rfl, ?_⟩
  exact other

mutual

theorem Level.operand_phrase : Level level phrase tree → Operand phrase
  | .primary inner => inner.operand_phrase
  | .operand inner => inner.operand_phrase
  | .join left _ _ right => left.operand_phrase.join _ right.operand_phrase

theorem Primary.operand_phrase : Primary phrase tree → Operand phrase
  | .number => ⟨by simp, _, _, rfl, nofun⟩
  | .string => ⟨by simp, _, _, rfl, nofun⟩
  | .boolean => ⟨by simp, _, _, rfl, nofun⟩
  | .identifier => ⟨by simp, _, _, rfl, nofun⟩
  | .call inner => ⟨by simp [divided_append inner.divided], _, _, rfl, nofun⟩
  | .parentheses inner =>
    ⟨by simp [divided_append inner.operand_phrase.divided], _, _, rfl, by decide⟩

theorem Arguments.divided : Arguments phrase trees → Divided phrase
  | .none => divided_nil
  | .some first others => (divided_append first.operand_phrase.divided).mpr others.divided

theorem MoreArguments.divided : MoreArguments phrase trees → Divided phrase
  | .none => divided_nil
  | .some next others => by simp [divided_append next.operand_phrase.divided, others.divided]

end

private theorem divided_parameters (names : List String) : Divided (parameters names) := by
  intro before after same
  have member : .symbol .divide ∈ parameters names := by simp [same]
  rcases mem_parameters member with impossible | ⟨_, impossible⟩ <;> cases impossible

mutual

theorem Statement.divided : Statement next phrase tree → Divided phrase
  | .declare value => by simp [divided_append value.operand_phrase.divided]
  | .assign value => by simp [divided_append value.operand_phrase.divided]
  | .call inner => by simp [divided_append inner.divided]
  | .giveBack argument => by simp [divided_append argument.operand_phrase.divided]
  | .print argument => by simp [divided_append argument.operand_phrase.divided]
  | .importFile => by simp
  | .block body => by simp [divided_append body.divided]
  | .branch test consequent _ => by
    simp [divided_append test.operand_phrase.divided, consequent.divided]
  | .alternative test consequent alternate => by
    simp [divided_append test.operand_phrase.divided, divided_append consequent.divided,
      alternate.divided]
  | .loop test body => by simp [divided_append test.operand_phrase.divided, body.divided]
  | .function body => by simp [divided_append (divided_parameters _), body.divided]

theorem Statements.divided : Statements next phrase trees → Divided phrase
  | .nil => divided_nil
  | .cons first others => (divided_append first.divided).mpr others.divided

end

end Grammar

/-- A text that is quiet to its end, or up to a comment of the emitted language. -/
def Inert (text : String) : Prop :=
  ∃ front back, text = front ++ back ∧ Text.Plain front ∧ Mute front ∧
    (back = "" ∨ ['/', '*'] <+: back.toList)

namespace Inert

theorem of_mute (mute : Mute text) (plain : Text.Plain text) : Inert text :=
  ⟨text, "", by simp, plain, mute, .inl rfl⟩

theorem of_comment (opens : ['/', '*'] <+: opening.toList) (rest : String) :
    Inert (opening ++ rest) := by
  refine ⟨"", opening ++ rest, by simp, by decide, .empty, .inr ?_⟩
  rw [String.toList_append]
  exact opens.trans (List.prefix_append _ _)

theorem append (first : Inert text) (second : Inert text') : Inert (text ++ text') := by
  obtain ⟨front, back, rfl, plain, mute, ended⟩ := first
  rcases ended with rfl | comment
  · obtain ⟨front', back', rfl, plain', mute', ended'⟩ := second
    refine ⟨front ++ front', back', ?_, Text.plain_append.mpr ⟨plain, plain'⟩, mute.append mute',
      ended'⟩
    simp [String.append_assoc]
  · refine ⟨front, back ++ text', String.append_assoc, plain, mute, .inr ?_⟩
    rw [String.toList_append]
    exact comment.trans (List.prefix_append _ _)

/-- What is read from a file with an inert text is inert. -/
theorem ofFile (inert : Inert code) (read : Text.ofFile code.toUTF8 = .ok text) : Inert text := by
  obtain ⟨front, back, rfl, plain, mute, ended⟩ := inert
  rw [Text.ofFile, Text.decode_toUTF8] at read
  obtain rfl := Except.ok.inj read
  rw [String.toList_append, Text.unifyLines_append plain, String.ofList_append,
    String.ofList_toList]
  refine ⟨front, _, rfl, plain, mute, ?_⟩
  rcases ended with rfl | ⟨rest, comment⟩
  · exact .inl rfl
  · rw [← comment, String.toList_ofList]
    exact .inr ⟨Text.unifyLines rest, rfl⟩

/-- The comment starts with a division and a multiplication sign. -/
theorem lexemes_comment (read : tokensFrom position ('/' :: '*' :: rest) = .ok stream) :
    ∃ others, lexemes stream.tokens = .symbol .divide :: .symbol .multiply :: others := by
  have divide : Munched (.symbol .divide) ['/'] ('*' :: rest) := .of_found .symbol nofun rfl rfl
  have multiply : Munched (.symbol .multiply) ['*'] rest := .of_found .symbol nofun rfl rfl
  have first := tokensFrom_munched position .nil divide (Symbol.not_oversized .divide)
  have second := tokensFrom_munched (position.advance ['/']) .nil multiply
    (Symbol.not_oversized .multiply)
  rw [List.nil_append, List.singleton_append] at first second
  rw [first, List.nil_append, second] at read
  obtain ⟨following, found, rfl⟩ := map_eq_ok read
  obtain ⟨others, _, rfl⟩ := map_eq_ok found
  exact ⟨lexemes others.tokens, rfl⟩

end Inert

private theorem not_site_of_standaloneText (alone : standaloneText file fragments = .ok code) :
    ∀ span path, .site span path ∉ fragments := by
  induction fragments generalizing code with
  | nil => simp
  | cons fragment fragments ih =>
    cases fragment with
    | site span path => cases alone
    | text front =>
      obtain ⟨back, rest, _⟩ := bind_eq_ok.mp alone
      simpa using ih rest

theorem Program.not_site {program : Program} (derived : Grammar.Derives phrase program.bare)
    (silent : .keyword .importWord ∉ phrase) : ∀ span path, .site span path ∉ program.emit := by
  have used := derived.uses fun lexeme member (imported : lexeme = .keyword .importWord) =>
    silent (imported ▸ member)
  have alone : program.emitStandalone none = _ :=
    Statement.standaloneAll (fun other => other rfl) program.body used
  exact not_site_of_standaloneText alone

/-- An inert text is no program with an import in it. -/
theorem Inert.not_site (inert : Inert text) (parsed : Program.ofSource text file = .ok program) :
    ∀ span path, .site span path ∉ program.emit := by
  obtain ⟨front, back, rfl, _, ⟨phrase, closed, silent⟩, ended⟩ := inert
  obtain ⟨stream, tokens, success⟩ := Program.ofSource_eq_ok.mp parsed
  have derived := parseProgram_derives success
  rw [TokenStream.ofSource, String.toList_append] at tokens
  -- The front is read as its phrase or the whole is refused; what then follows is nothing or a
  -- comment, which no derivation gets past.
  rcases closed back.toList trivial .start with ⟨position, before, same, reads⟩ | ⟨_, _, refused⟩
  · rw [reads] at tokens
    obtain ⟨following, rest, rfl⟩ := map_eq_ok tokens
    have joined : lexemes (before ++ following.tokens) = phrase ++ lexemes following.tokens := by
      simp [lexemes, ← same]
    rw [joined] at derived
    rcases ended with rfl | ⟨others, comment⟩
    · have none := Except.ok.inj ((tokensFrom_end position .nil).symm.trans rest)
      rw [← none, lexemes, List.map_nil, List.append_nil] at derived
      exact Program.not_site derived silent
    · rw [← comment] at rest
      obtain ⟨more, shape⟩ := lexemes_comment rest
      rw [shape] at derived
      obtain ⟨next, _, split, other⟩ := derived.divided phrase _ rfl
      exact absurd (List.cons.inj split).1.symm other
  · rw [refused] at tokens
    cases tokens

end ScriptKit
