import ScriptKit.Proofs.Program.Recognition
import ScriptKit.Proofs.Program.Uses
import ScriptKit.Proofs.Text.Plain
import ScriptKit.SourceFile

/-!
What is emitted for a source file has no carriage returns. Reading a file leaves none in its text, the
names and strings of the tree stand in that text, and emission adds none.
-/
namespace ScriptKit

open Text

/-- Names and strings are the lexemes with a text of their own. -/
def Lexeme.Plain : Lexeme → Prop
  | .identifier name => Text.Plain name
  | .string text => Text.Plain text
  | _ => True

theorem Lexeme.ofWord_plain (plain : Text.Plain word) : (ofWord word).Plain := by
  unfold ofWord
  split
  · trivial
  split
  · trivial
  split
  · trivial
  · exact plain

theorem Terminal.read_plain {text : List Char} (plain : '\r' ∉ text)
    (success : Terminal.read terminal text = .ok lexeme) : lexeme.Plain := by
  cases terminal with
  | integer =>
    simp only [Terminal.read] at success
    split at success
    · cases success
    · cases success
      trivial
  | decimal =>
    cases success
    trivial
  | string =>
    cases success
    refine plain_ofList.mpr fun member => plain ?_
    exact List.mem_of_mem_drop ((List.dropLast_sublist _).subset member)
  | word =>
    cases success
    exact Lexeme.ofWord_plain (plain_ofList.mpr plain)
  | symbol sign =>
    cases success
    trivial

private theorem tokensFrom_plain {source : List Char} {stream : TokenStream} (plain : '\r' ∉ source)
    (success : tokensFrom position source = .ok stream) : All Lexeme.Plain (lexemes stream.tokens) := by
  rw [tokensFrom] at success
  split at success
  · cases success
    exact all_nil
  · rename_i char rest remaining
    have unread : '\r' ∉ char :: rest :=
      remaining ▸ fun member => plain (List.mem_of_mem_drop member)
    split at success
    · cases success
    · rename_i terminal length found
      have shorter := rest_length_lt remaining found
      obtain ⟨lexeme, read, success⟩ := bind_eq_ok.mp success
      obtain ⟨following, others, success⟩ := bind_eq_ok.mp success
      cases success
      refine all_cons.mpr ⟨Terminal.read_plain (fun member => ?_) read, ?_⟩
      · exact unread (List.mem_of_mem_take member)
      · exact tokensFrom_plain (fun member => unread (List.mem_of_mem_drop member)) others
termination_by source.length
decreasing_by exact shorter

theorem Program.ofSource_plain (plain : Text.Plain source)
    (success : Program.ofSource source file = .ok program) :
    Bare.Statement.AllUse Lexeme.Plain program.bare := by
  obtain ⟨stream, tokens, parsed⟩ := ofSource_eq_ok.mp success
  exact (parseProgram_derives parsed).uses (tokensFrom_plain plain tokens)

theorem Infix.Uses.plain_text {infixed : Infix} (used : infixed.Uses holds) :
    Text.Plain infixed.text := by
  obtain ⟨sign, known, _⟩ := used
  rw [infixed.text_eq known]
  cases sign <;> decide

mutual

theorem Expression.plain_emit : (expression : Expression) → expression.bare.Uses Lexeme.Plain →
    Text.Plain expression.emit
  | .literal _ value, _ => value.plain_emit
  | .identifier _ name, plain => plain
  | .binary _ operator left right, ⟨used, first, second⟩ => by
    have spelled := used.plain_text
    simp only [Expression.emit, plain_append]
    exact ⟨⟨⟨⟨⟨⟨by decide, left.plain_emit first⟩, by decide⟩, spelled⟩, by decide⟩,
      right.plain_emit second⟩, by decide⟩
  | .logical _ operator left right, ⟨used, first, second⟩ => by
    have spelled := used.plain_text
    simp only [Expression.emit, plain_append]
    exact ⟨⟨⟨⟨⟨⟨by decide, left.plain_emit first⟩, by decide⟩, spelled⟩, by decide⟩,
      right.plain_emit second⟩, by decide⟩
  | .call _ callee arguments, ⟨named, all⟩ => by
    simp only [Expression.emit, plain_append]
    exact ⟨⟨⟨named, by decide⟩,
      plain_intercalate (by decide) (Expression.plain_emitAll arguments all)⟩, by decide⟩

theorem Expression.plain_emitAll : (expressions : List Expression) →
    Bare.Expression.AllUse Lexeme.Plain (Expression.bareAll expressions) →
    ∀ text ∈ Expression.emitAll expressions, Text.Plain text
  | [], _ => nofun
  | expression :: rest, ⟨first, others⟩ => by
    rw [Expression.emitAll]
    exact List.forall_mem_cons.mpr
      ⟨expression.plain_emit first, Expression.plain_emitAll rest others⟩

end

def Fragment.Plain : Fragment → Prop
  | .text code => Text.Plain code
  | .site _ path => Text.Plain path

private theorem plain_text {code : String} (plain : Text.Plain code) :
    ∀ fragment ∈ [Fragment.text code], fragment.Plain :=
  List.forall_mem_singleton.mpr plain

private theorem braced_plain {inner : List Fragment} (plain : ∀ fragment ∈ inner, fragment.Plain) :
    ∀ fragment ∈ braced inner, fragment.Plain := by
  have opening : Text.Plain "\x7b\n" := by decide
  have closing : Text.Plain "\n\x7d" := by decide
  exact List.forall_mem_cons.mpr
    ⟨opening, List.forall_mem_append.mpr ⟨plain, plain_text closing⟩⟩

mutual

theorem Statement.plain_emit : (statement : Statement) → statement.bare.Uses Lexeme.Plain →
    ∀ fragment ∈ statement.emit, fragment.Plain
  | .declare _ name value, ⟨_, named, plain⟩ => by
    refine plain_text ?_
    simp only [plain_append]
    exact ⟨⟨⟨⟨by decide, named⟩, by decide⟩, value.plain_emit plain⟩, by decide⟩
  | .assign _ name value, ⟨named, plain⟩ => by
    refine plain_text ?_
    simp only [plain_append]
    exact ⟨⟨⟨named, by decide⟩, value.plain_emit plain⟩, by decide⟩
  | .block _ body, plain => braced_plain (Statement.plain_emitAll body plain)
  | .branch _ test consequent none, ⟨_, condition, inner⟩ => by
    refine List.forall_mem_cons.mpr ⟨?_, consequent.plain_emit inner⟩
    simp only [Fragment.Plain, plain_append]
    exact ⟨⟨by decide, test.plain_emit condition⟩, by decide⟩
  | .branch _ test consequent (some alternate), ⟨_, condition, inner, _, other⟩ => by
    have word : Text.Plain " else " := by decide
    refine List.forall_mem_cons.mpr ⟨?_, List.forall_mem_append.mpr ⟨consequent.plain_emit inner,
      List.forall_mem_cons.mpr ⟨word, alternate.plain_emit other⟩⟩⟩
    simp only [Fragment.Plain, plain_append]
    exact ⟨⟨by decide, test.plain_emit condition⟩, by decide⟩
  | .loop _ test body, ⟨_, condition, inner⟩ => by
    refine List.forall_mem_cons.mpr ⟨?_, body.plain_emit inner⟩
    simp only [Fragment.Plain, plain_append]
    exact ⟨⟨by decide, test.plain_emit condition⟩, by decide⟩
  | .function _ name parameters body, ⟨_, named, names, inner⟩ => by
    refine List.forall_mem_cons.mpr ⟨?_, ?_⟩
    · simp only [Fragment.Plain, plain_append]
      exact ⟨⟨⟨⟨by decide, named⟩, by decide⟩, plain_intercalate (by decide) names⟩, by decide⟩
    · split
      · exact body.plain_emit inner
      · exact braced_plain (body.plain_emit inner)
  | .giveBack _ argument, ⟨_, plain⟩ => by
    refine plain_text ?_
    simp only [plain_append]
    exact ⟨⟨by decide, argument.plain_emit plain⟩, by decide⟩
  | .print _ argument, ⟨_, plain⟩ => by
    refine plain_text ?_
    simp only [plain_append]
    exact ⟨⟨by decide, argument.plain_emit plain⟩, by decide⟩
  | .importFile span path, ⟨_, plain⟩ => List.forall_mem_singleton.mpr plain
  | .call span callee arguments, plain => by
    refine plain_text (plain_append.mpr ⟨?_, by decide⟩)
    exact (Expression.call span callee arguments).plain_emit plain

theorem Statement.plain_emitAll : (statements : List Statement) →
    Bare.Statement.AllUse Lexeme.Plain (Statement.bareAll statements) →
    ∀ fragment ∈ Statement.emitAll statements, fragment.Plain
  | [], _ => nofun
  | [statement], ⟨first, _⟩ => statement.plain_emit first
  | statement :: next :: rest, ⟨first, others⟩ => by
    have line : Text.Plain "\n" := by decide
    exact List.forall_mem_append.mpr ⟨statement.plain_emit first,
      List.forall_mem_cons.mpr ⟨line, Statement.plain_emitAll (next :: rest) others⟩⟩

end

/-- A program that is loaded is the one that the text of the file spells. -/
theorem SourceFile.load_eq_ok (loaded : load workspace path = .ok program) :
    ∃ content text, workspace.read path = .ok content ∧ Text.ofFile content = .ok text ∧
      Program.ofSource text (some path) = .ok program := by
  obtain ⟨text, found, parsed⟩ := bind_eq_ok.mp loaded
  unfold read at found
  split at found
  · cases found
  · cases found
  · cases found
  · rename_i content present
    split at found
    · cases found
      rename_i decoded
      cases spelled : Program.ofSource text (some path) with
      | error fault =>
        rw [spelled] at parsed
        cases parsed
      | ok program' =>
        rw [spelled] at parsed
        cases parsed
        exact ⟨content, text, present, decoded, spelled⟩
    · cases found

theorem SourceFile.load_eq (text : read workspace path = .ok source)
    (parsed : Program.ofSource source (some path) = .ok program) :
    load workspace path = .ok program := by
  rw [load, text]
  exact congrArg (Except.mapError Failure.ofSource) parsed

/-- Nothing that is emitted for a source file has a carriage return in it. -/
theorem SourceFile.load_plain (loaded : load workspace path = .ok program) :
    ∀ fragment ∈ program.emit, fragment.Plain := by
  obtain ⟨_, text, _, decoded, parsed⟩ := load_eq_ok loaded
  exact Statement.plain_emitAll _ (Program.ofSource_plain (plain_of_ofFile decoded) parsed)

end ScriptKit
