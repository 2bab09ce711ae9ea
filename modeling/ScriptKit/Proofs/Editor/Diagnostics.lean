import Mathlib.Algebra.GroupWithZero.Nat
import Mathlib.Data.List.TakeWhile
import ScriptKit.Editor
import ScriptKit.Proofs.Program.Viability
import ScriptKit.Proofs.Token.Layout

/-!
Where diagnostics point. Lines and columns are counted from one in a text and from zero in a document,
and both count the same characters. So the start of a diagnostic is the offset of the character that
starts no lexeme, or else that of the first token with which the tokens before it make no program.
-/
namespace ScriptKit

namespace Editor

/-- The offset of a place in a document, given the lines of it. A line has a place before each of its
characters and one after them; there are no others. -/
def offsetAt? (lines : List (List Char)) (line character : Nat) : Option Nat :=
  match lines[line]? with
  | none => none
  | some text =>
    if character ≤ text.length then
      some (((lines.take line).map (·.length + 1)).sum + character)
    else none

section
variable {text before rest : List Char}

private theorem offsetAt?_append {earlier later : List (List Char)}
    (inside : character ≤ text.length) :
    offsetAt? (earlier ++ text :: later) earlier.length character =
      some ((earlier.map (·.length + 1)).sum + character) := by
  simp [offsetAt?, inside]

private theorem length_splitOn (text : List Char) :
    (text.splitOn '\n').length = text.count '\n' + 1 := by
  induction text with
  | nil => rfl
  | cons char text ih =>
    rw [List.splitOn_cons_eq_if_modifyHead]
    split
    · rename_i feed
      simp [eq_of_beq feed, ih]
    · rename_i other
      rw [List.length_modifyHead, ih, List.count_cons, if_neg other]

/-- Every line has one character more than its own, the line feed that ends it, but the last one. -/
theorem sum_splitOn (text : List Char) :
    ((text.splitOn '\n').map (·.length + 1)).sum = text.length + 1 := by
  induction text with
  | nil => rfl
  | cons char text ih =>
    rw [List.splitOn_cons_eq_if_modifyHead]
    split
    · simp [ih]
      omega
    · obtain ⟨first, others, lines⟩ := List.exists_cons_of_ne_nil (List.splitOn_ne_nil '\n' text)
      rw [lines] at ih ⊢
      simp at ih ⊢
      omega

private theorem splitOn_append (line : '\n' ∉ text) (rest : List Char) :
    ∃ more later, (text ++ rest).splitOn '\n' = (text ++ more) :: later := by
  induction text with
  | nil =>
    obtain ⟨first, others, lines⟩ := List.exists_cons_of_ne_nil (List.splitOn_ne_nil '\n' rest)
    exact ⟨first, others, lines⟩
  | cons char text ih =>
    obtain ⟨other, line⟩ := not_or.mp (mt List.mem_cons.mpr line)
    obtain ⟨more, later, lines⟩ := ih line
    refine ⟨more, later, ?_⟩
    rw [List.cons_append, List.splitOn_cons_eq_if_modifyHead, lines,
      if_neg (fun feed => other (eq_of_beq feed).symm)]
    rfl

/-- A text is a line, or ends with a line after a line feed. -/
theorem lastLine_cases (text : List Char) :
    '\n' ∉ text ∨ ∃ front line, text = front ++ '\n' :: line ∧ '\n' ∉ line := by
  by_cases member : '\n' ∈ text
  · obtain ⟨line, front, split, alone⟩ := List.eq_append_cons_of_mem (List.mem_reverse.mpr member)
    refine .inr ⟨front.reverse, line.reverse, ?_, by simpa using alone⟩
    rw [← List.reverse_inj, split]
    simp
  · exact .inl member

private theorem placeAfter_line (line : '\n' ∉ text) : placeAfter text = ⟨1, text.length + 1⟩ := by
  have whole : text.reverse.takeWhile (· != '\n') = text.reverse := by
    refine List.takeWhile_eq_self_iff.mpr fun char member => bne_iff_ne.mpr ?_
    rintro rfl
    exact line (List.mem_reverse.mp member)
  rw [placeAfter, List.count_eq_zero.mpr line, whole, List.length_reverse]

private theorem placeAfter_lines (front : List Char) (line : '\n' ∉ text) :
    placeAfter (front ++ '\n' :: text) = ⟨front.count '\n' + 2, text.length + 1⟩ := by
  have last : (front ++ '\n' :: text).reverse.takeWhile (· != '\n') = text.reverse := by
    rw [List.reverse_append, List.reverse_cons, List.append_assoc]
    refine (takeWhile_stop (fun char member => bne_iff_ne.mpr ?_) rfl _).1
    rintro rfl
    exact line (List.mem_reverse.mp member)
  rw [placeAfter, last, List.count_append, List.count_cons_self, List.count_eq_zero.mpr line,
    List.length_reverse]
  congr 1
  omega

/-- Counted from zero, the place after a text is the offset at its end, whatever comes after it. -/
theorem offsetAt?_placeAfter (before rest : List Char) :
    offsetAt? ((before ++ rest).splitOn '\n') ((placeAfter before).line - 1)
      ((placeAfter before).column - 1) = some before.length := by
  rcases lastLine_cases before with line | ⟨front, text, rfl, line⟩
  · obtain ⟨more, later, lines⟩ := splitOn_append line rest
    rw [placeAfter_line line, lines]
    have found := @offsetAt?_append (before ++ more) before.length [] later (by simp)
    simpa using found
  · obtain ⟨more, later, lines⟩ := splitOn_append line rest
    rw [placeAfter_lines front line, List.append_assoc, List.cons_append,
      List.splitOn_append_cons_self, lines]
    have found := @offsetAt?_append (text ++ more) text.length (front.splitOn '\n') later (by simp)
    rw [length_splitOn, sum_splitOn] at found
    simpa [Nat.add_assoc, Nat.add_comm 1] using found

end

end Editor

private theorem written_eq (last : List Char) (pieces : List Piece) :
    written last pieces = written [] pieces ++ last := by
  induction pieces with
  | nil => rfl
  | cons piece pieces ih =>
    simp only [written, ih, List.append_assoc]

private theorem written_append (last : List Char) (earlier later : List Piece) :
    written last (earlier ++ later) = written (written last later) earlier := by
  induction earlier with
  | nil => rfl
  | cons piece earlier ih => simp only [written, List.cons_append, ih]

theorem Splits.eq_written (splits : Splits source pieces rest) : source = written rest pieces := by
  induction splits with
  | nil => rfl
  | cons between munched others ih =>
    rw [written, ← ih]

private theorem tokensAfter_append (before : List Char) (earlier later : List Piece) :
    tokensAfter before (earlier ++ later) =
      tokensAfter before earlier ++ tokensAfter (before ++ written [] earlier) later := by
  induction earlier generalizing before with
  | nil => simp [tokensAfter, written]
  | cons piece earlier ih =>
    simp [tokensAfter, ih, written, List.append_assoc]

private theorem length_tokensAfter (before : List Char) (pieces : List Piece) :
    (tokensAfter before pieces).length = pieces.length := by
  have same := congrArg List.length (lexemes_tokensAfter before pieces)
  simpa [lexemes] using same

/-- Tokens of pieces that are cut in two come from pieces that are cut in two. -/
theorem tokensAfter_eq_append (split : tokensAfter before pieces = used ++ rest) :
    ∃ earlier later, pieces = earlier ++ later ∧ used = tokensAfter before earlier ∧
      rest = tokensAfter (before ++ written [] earlier) later := by
  have whole := pieces.take_append_drop used.length
  have short : used.length ≤ pieces.length := by
    rw [← length_tokensAfter before pieces, split, List.length_append]
    omega
  rw [← whole, tokensAfter_append] at split
  obtain ⟨same, same'⟩ := List.append_inj split.symm (by
    rw [length_tokensAfter, List.length_take, Nat.min_eq_left short])
  exact ⟨_, _, whole.symm, same, same'⟩

namespace Editor

/-- The lexemes begin a program, but no program goes on with the next one, or ends here if there is no
next one. -/
structure Rejects (used : List Lexeme) (next : Option Lexeme) : Prop where
  viable : ∃ more trees, Grammar.Derives (used ++ more) trees
  hopeless : ∀ others trees, others.head? = next → ¬ Grammar.Derives (used ++ others) trees

/-- What makes a text no program, and its offset: a character that starts no lexeme where the text
before it is lexemes, or if the whole text is lexemes, the first of them that continues no program, or
the end of the text. -/
inductive Offends (source : List Char) : Nat → Prop where
  | character (splits : Splits source pieces (gap ++ char :: rest)) (between : Gap gap (char :: rest))
      (stuck : Stuck (char :: rest)) : Offends source (written gap pieces).length
  | token (splits : Splits source (earlier ++ piece :: later) gap) (between : Gap gap [])
      (rejects : Rejects (earlier.map Piece.lexeme) (some piece.lexeme)) :
      Offends source (written piece.gap earlier).length
  | ending (splits : Splits source pieces gap) (between : Gap gap [])
      (rejects : Rejects (pieces.map Piece.lexeme) none) : Offends source source.length

theorem Rejects.of_refused (refused : parseProgram stream = .error rejection)
    (split : stream.tokens = used ++ rejection.rest) :
    Rejects (lexemes used) (rejection.rest.head?.map Token.lexeme) := by
  obtain ⟨used', split', viable⟩ := Program.refused_viable refused
  obtain rfl := List.append_cancel_right (split.symm.trans split')
  exact ⟨viable, fun others trees head => Program.refused_hopeless refused split head⟩

/-- The span starts where the text before ends, and its last character is on that line. -/
def Marks (before : List Char) (span : Span) : Prop :=
  span.first = placeAfter before ∧ span.last.line = span.first.line ∧
    span.first.column ≤ span.last.column

/-- The tokens of a text are refused at what offends in it. -/
theorem parseProgram_offends {rejection : Rejection} (splits : Splits source pieces gap)
    (between : Gap gap [])
    (refused : parseProgram ⟨tokensAfter [] pieces, placeAfter source⟩ = .error rejection) :
    ∃ before rest, source = before ++ rest ∧ Offends source before.length ∧
      (rejection.rest.head?.map Token.position).getD (placeAfter source) = placeAfter before := by
  obtain ⟨used, split, _⟩ := Program.refused_viable refused
  obtain ⟨earlier, later, rfl, rfl, rest⟩ := tokensAfter_eq_append split
  have rejects := Rejects.of_refused refused split
  rw [lexemes_tokensAfter] at rejects
  cases later with
  | nil =>
    rw [rest] at rejects ⊢
    rw [List.append_nil] at splits
    exact ⟨source, [], (List.append_nil _).symm, .ending splits between rejects, rfl⟩
  | cons piece later =>
    rw [rest] at rejects ⊢
    refine ⟨written piece.gap earlier, piece.text ++ written gap later, ?_,
      .token splits between rejects, ?_⟩
    · rw [splits.eq_written, written_append, written_eq, written_eq piece.gap, List.append_assoc, written]
    · rw [written_eq piece.gap]
      rfl

private theorem ofSource_offends (source : String) (file : Option String)
    (fits : ∀ pieces rest, Splits source.toList pieces rest →
      ∀ piece ∈ pieces, ¬ Oversized piece.text) :
    (∃ program, Program.ofSource source file = .ok program) ∨
      ∃ error span before rest, Program.ofSource source file = .error (.reported error) ∧
        error.span = some span ∧ source.toList = before ++ rest ∧ Marks before span ∧
        Offends source.toList before.length := by
  obtain ⟨pieces, gap, rest, splits, between, ended⟩ := exists_splits source.toList
  rcases ended with rfl | ⟨char, more, rfl, stuck⟩
  · rw [List.append_nil] at splits
    have tokens : TokenStream.ofSource source = .ok _ :=
      splits.tokensFrom_ok between (fits pieces _ splits)
    unfold Program.ofSource
    rw [tokens]
    dsimp only
    unfold Program.ofStream
    cases parsed : parseProgram ⟨tokensAfter [] pieces, placeAfter source.toList⟩ with
    | ok program => exact .inl ⟨program, rfl⟩
    | error rejection =>
      obtain ⟨before, rest, split, offends, place⟩ := parseProgram_offends splits between parsed
      refine .inr ⟨_, _, before, rest, rfl, rfl, split, ?_, offends⟩
      exact ⟨place, rfl, Nat.le_refl _⟩
  · obtain ⟨before, split, tokens⟩ :=
      splits.tokensFrom_error between stuck (fits pieces _ splits)
    have tokens : TokenStream.ofSource source = _ := tokens
    have same : before = written gap pieces := by
      have whole := splits.eq_written
      rw [split, written_eq, ← List.append_assoc, ← written_eq gap] at whole
      exact List.append_cancel_right whole
    refine .inr ⟨{ lexError (placeAfter before) char with file := file }, _, before, char :: more, ?_,
      rfl, split, ⟨rfl, rfl, Nat.le_succ _⟩, ?_⟩
    · rw [Program.ofSource, tokens]
      rfl
    · rw [same]
      exact .character splits between stuck

/-- A text without integers of too many digits has no diagnostics exactly if it is a program. Otherwise
it has one, which starts at the place of what offends in the text, read as a place in its lines, and
ends behind that place on the same line. -/
theorem diagnostics_point (source : String) (file : Option String)
    (fits : ∀ pieces rest, Splits source.toList pieces rest →
      ∀ piece ∈ pieces, ¬ Oversized piece.text) :
    (diagnostics source file = .ok [] ↔ ∃ program, Program.ofSource source file = .ok program) ∧
    ((∀ program, Program.ofSource source file ≠ .ok program) →
      ∃ diagnostic offset, diagnostics source file = .ok [diagnostic] ∧
        offsetAt? (source.toList.splitOn '\n') diagnostic.range.startLine
          diagnostic.range.startCharacter = some offset ∧
        Offends source.toList offset ∧
        diagnostic.range.endLine = diagnostic.range.startLine ∧
        diagnostic.range.startCharacter < diagnostic.range.endCharacter) := by
  rcases ofSource_offends source file fits with
    ⟨program, accepted⟩ | ⟨error, span, before, rest, refused, place, split, marks, offends⟩
  · refine ⟨⟨fun _ => ⟨program, accepted⟩, fun _ => ?_⟩, fun none => absurd accepted (none program)⟩
    rw [diagnostics, accepted]
  · have single : diagnostics source file = .ok [⟨rangeOf (some span), error.cause.message⟩] := by
      rw [diagnostics, refused, ← place]
    obtain ⟨first, line, column⟩ := marks
    refine ⟨⟨?_, ?_⟩, fun _ => ⟨_, before.length, single, ?_, offends, ?_, ?_⟩⟩
    · intro none
      cases single.symm.trans none
    · rintro ⟨program, accepted⟩
      cases accepted.symm.trans refused
    · rw [split]
      simp only [rangeOf, first]
      exact offsetAt?_placeAfter before rest
    · simp only [rangeOf, line]
    · have positive : 0 < span.first.column := by
        rw [first]
        exact Nat.succ_pos _
      simp only [rangeOf]
      omega

/-- A string over two lines and no semicolon: what offends is the end of the text, on a third line. -/
theorem diagnostics_point_ending :
    (∀ pieces rest, Splits "x = \"a\nb\"\n".toList pieces rest →
      ∀ piece ∈ pieces, ¬ Oversized piece.text) ∧
    (∀ program, Program.ofSource "x = \"a\nb\"\n" none ≠ .ok program) ∧
    ∃ diagnostic, diagnostics "x = \"a\nb\"\n" none = .ok [diagnostic] ∧
      diagnostic.range = ⟨2, 0, 2, 1⟩ ∧
      offsetAt? ("x = \"a\nb\"\n".toList.splitOn '\n') 2 0 = some 10 ∧
      Offends "x = \"a\nb\"\n".toList 10 := by
  have fits (pieces : List Piece) (rest : List Char)
      (splits : Splits "x = \"a\nb\"\n".toList pieces rest) (piece : Piece)
      (member : piece ∈ pieces) : ¬ Oversized piece.text :=
    splits.fits_of_length_le (by decide) member
  have tokens : TokenStream.ofSource "x = \"a\nb\"\n" = .ok
      ⟨[⟨.identifier "x", ⟨1, 1⟩⟩, ⟨.symbol .assign, ⟨1, 3⟩⟩, ⟨.string "a\nb", ⟨1, 5⟩⟩], ⟨3, 1⟩⟩ := by
    decide +kernel
  have refused : Program.ofSource "x = \"a\nb\"\n" none =
      .error (.reported (Rejection.toError ⟨.kind (.symbol .semicolon), []⟩ ⟨3, 1⟩ none)) := by
    rw [Program.ofSource, tokens]
    simp [Program.ofStream, parseProgram, parseStatements, parseStatement, expectSymbol,
      parseExpression, tierCount, parseTiers, parsePrimary, parseChain, bind, Except.bind, pure,
      Except.pure]
  have failed (program : Program) : Program.ofSource "x = \"a\nb\"\n" none ≠ .ok program := by
    intro accepted
    cases accepted.symm.trans refused
  obtain ⟨diagnostic, offset, single, found, offends, _⟩ :=
    (diagnostics_point _ none fits).2 failed
  have place : diagnostic.range = ⟨2, 0, 2, 1⟩ := by
    rw [diagnostics, refused] at single
    cases single
    rfl
  rw [place] at found
  have here : offsetAt? ("x = \"a\nb\"\n".toList.splitOn '\n') 2 0 = some 10 := by decide
  cases found.symm.trans here
  exact ⟨fits, failed, diagnostic, single, place, here, offends⟩

end Editor
end ScriptKit
