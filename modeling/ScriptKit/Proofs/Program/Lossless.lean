import ScriptKit.Proofs.Program.Decoding
import ScriptKit.Proofs.Program.Distinction

/-!
Dumps lose nothing. In the document of a program or of its tokens no object has a key twice, so the
document is read back from its text, and the program or the tokens from the document.
-/
namespace ScriptKit

/-- The program that a dump shows, with no bound on the digits of its numbers. -/
def Program.ofDump? (text : String) : Option Program :=
  (Json.ofChars none text.toList).toOption.bind Program.ofJson?

def TokenStream.ofDump? (text : String) : Option TokenStream :=
  (Json.ofChars none text.toList).toOption.bind TokenStream.ofJson?

theorem Json.keyed_tagged (distinct : ("type" :: fields.map Prod.fst).Nodup)
    (inner : KeyedFields fields) : (Json.tagged type fields).Keyed :=
  ⟨distinct, trivial, inner⟩

theorem Span.keyed_toJson (span : Span) : span.toJson.Keyed :=
  Json.keyed_tagged (by decide : ["type", "s_line", "s_col", "e_line", "e_col"].Nodup)
    ⟨trivial, trivial, trivial, trivial, trivial⟩

theorem Number.keyed_toJson (value : Number) : value.toJson.Keyed := by
  cases value <;> trivial

theorem Literal.keyed_toJson (value : Literal) : value.toJson.Keyed := by
  cases value with
  | number value => exact value.keyed_toJson
  | _ => trivial

mutual

theorem Expression.keyed_toJson : (expression : Expression) → expression.toJson.Keyed
  | .literal span value =>
    Json.keyed_tagged (by decide : ["type", "span", "value"].Nodup)
      ⟨span.keyed_toJson, value.keyed_toJson, trivial⟩
  | .identifier span name =>
    Json.keyed_tagged (by decide : ["type", "span", "name"].Nodup)
      ⟨span.keyed_toJson, trivial, trivial⟩
  | .binary span operator left right =>
    Json.keyed_tagged (by decide : ["type", "span", "operator", "left", "right"].Nodup)
      ⟨span.keyed_toJson, trivial, left.keyed_toJson, right.keyed_toJson, trivial⟩
  | .logical span operator left right =>
    Json.keyed_tagged (by decide : ["type", "span", "operator", "left", "right"].Nodup)
      ⟨span.keyed_toJson, trivial, left.keyed_toJson, right.keyed_toJson, trivial⟩
  | .call span callee arguments =>
    Json.keyed_tagged (by decide : ["type", "span", "callee", "arguments"].Nodup)
      ⟨span.keyed_toJson, trivial, Expression.keyed_toJsonAll arguments, trivial⟩

theorem Expression.keyed_toJsonAll :
    (expressions : List Expression) → Json.KeyedAll (Expression.toJsonAll expressions)
  | [] => trivial
  | expression :: rest => ⟨expression.keyed_toJson, Expression.keyed_toJsonAll rest⟩

end

theorem Json.keyedAll_strings (texts : List String) : KeyedAll (texts.map .string) := by
  induction texts with
  | nil => trivial
  | cons text texts ih => exact ⟨trivial, ih⟩

mutual

theorem Statement.keyed_toJson : (statement : Statement) → statement.toJson.Keyed
  | .declare span name value =>
    Json.keyed_tagged (by decide : ["type", "span", "name", "value"].Nodup)
      ⟨span.keyed_toJson, trivial, value.keyed_toJson, trivial⟩
  | .assign span name value =>
    Json.keyed_tagged (by decide : ["type", "span", "name", "value"].Nodup)
      ⟨span.keyed_toJson, trivial, value.keyed_toJson, trivial⟩
  | .block span body =>
    Json.keyed_tagged (by decide : ["type", "span", "body"].Nodup)
      ⟨span.keyed_toJson, Statement.keyed_toJsonAll body, trivial⟩
  | .branch span test consequent none =>
    Json.keyed_tagged (by decide : ["type", "span", "test", "consequent", "alternate"].Nodup)
      ⟨span.keyed_toJson, test.keyed_toJson, consequent.keyed_toJson, trivial, trivial⟩
  | .branch span test consequent (some alternate) =>
    Json.keyed_tagged (by decide : ["type", "span", "test", "consequent", "alternate"].Nodup)
      ⟨span.keyed_toJson, test.keyed_toJson, consequent.keyed_toJson, alternate.keyed_toJson, trivial⟩
  | .loop span test body =>
    Json.keyed_tagged (by decide : ["type", "span", "test", "body"].Nodup)
      ⟨span.keyed_toJson, test.keyed_toJson, body.keyed_toJson, trivial⟩
  | .function span name parameters body =>
    Json.keyed_tagged (by decide : ["type", "span", "name", "params", "body"].Nodup)
      ⟨span.keyed_toJson, trivial, Json.keyedAll_strings parameters, body.keyed_toJson, trivial⟩
  | .giveBack span argument =>
    Json.keyed_tagged (by decide : ["type", "span", "argument"].Nodup)
      ⟨span.keyed_toJson, argument.keyed_toJson, trivial⟩
  | .print span argument =>
    Json.keyed_tagged (by decide : ["type", "span", "argument"].Nodup)
      ⟨span.keyed_toJson, argument.keyed_toJson, trivial⟩
  | .importFile span path =>
    Json.keyed_tagged (by decide : ["type", "span", "path"].Nodup)
      ⟨span.keyed_toJson, trivial, trivial⟩
  | .call span callee arguments => (Expression.call span callee arguments).keyed_toJson

theorem Statement.keyed_toJsonAll :
    (statements : List Statement) → Json.KeyedAll (Statement.toJsonAll statements)
  | [] => trivial
  | statement :: rest => ⟨statement.keyed_toJson, Statement.keyed_toJsonAll rest⟩

end

theorem Program.keyed_toJson (program : Program) : program.toJson.Keyed :=
  Json.keyed_tagged (by decide : ["type", "span", "body"].Nodup)
    ⟨program.span.keyed_toJson, Statement.keyed_toJsonAll program.body, trivial⟩

private theorem keyed_tokenJson (kind : TokenKind) (value : Json) (position : Position)
    (keyed : value.Keyed) : (tokenJson kind value position).Keyed :=
  Json.keyed_tagged (by decide : ["type", "kind", "value", "line", "column"].Nodup)
    ⟨trivial, keyed, trivial, trivial, trivial⟩

theorem Lexeme.keyed_toJson (lexeme : Lexeme) : lexeme.toJson.Keyed := by
  cases lexeme with
  | number value => exact value.keyed_toJson
  | _ => trivial

theorem TokenStream.keyed_toJson (stream : TokenStream) : stream.toJson.Keyed := by
  obtain ⟨tokens, stop⟩ := stream
  change Json.KeyedAll (tokens.map Token.toJson ++ [tokenJson .endOfFile .null stop])
  induction tokens with
  | nil => exact ⟨keyed_tokenJson .endOfFile .null stop trivial, trivial⟩
  | cons token tokens ih =>
    exact ⟨keyed_tokenJson _ _ token.position token.lexeme.keyed_toJson, ih⟩

/-- Operators that a source spells come back from their spelling. -/
theorem Program.ofDump?_dump {program : Program}
    (used : Bare.Statement.AllUse holds program.bare) : ofDump? program.dump = some program := by
  rw [ofDump?, dump, Json.ofChars_indented program.keyed_toJson 0]
  exact ofJson?_toJson used

theorem TokenStream.ofDump?_dump (stream : TokenStream) : ofDump? stream.dump = some stream := by
  rw [ofDump?, dump, Json.ofChars_indented stream.keyed_toJson 0]
  exact ofJson?_toJson stream

theorem Program.ofDump?_of_ofSource {program : Program}
    (parsed : ofSource source file = .ok program) : ofDump? program.dump = some program := by
  obtain ⟨stream, _, success⟩ := ofSource_eq_ok.mp parsed
  have anything : All (fun _ => True) (lexemes stream.tokens) := fun _ _ => trivial
  exact ofDump?_dump ((parseProgram_derives success).uses anything)

/-- A dump is in ASCII, whatever the texts in the source, and is decoded to what was dumped, spans
and kinds of literals included; so programs with one dump are one program. -/
theorem dumps_lossless :
    (∀ source file program, Program.ofSource source file = .ok program →
      Ascii program.dump.toList ∧ Program.ofDump? program.dump = some program) ∧
    (∀ stream : TokenStream,
      Ascii stream.dump.toList ∧ TokenStream.ofDump? stream.dump = some stream) ∧
    ∀ source file program source' file' program', Program.ofSource source file = .ok program →
      Program.ofSource source' file' = .ok program' → program.dump = program'.dump →
      program = program' := by
  refine ⟨?_, ?_, ?_⟩
  · intro source file program parsed
    exact ⟨Ascii.indented 0 program.toJson, Program.ofDump?_of_ofSource parsed⟩
  · intro stream
    exact ⟨Ascii.indented 0 stream.toJson, stream.ofDump?_dump⟩
  · intro source file program source' file' program' parsed parsed' same
    have first := Program.ofDump?_of_ofSource parsed
    have second := Program.ofDump?_of_ofSource parsed'
    rw [same, second] at first
    exact (Option.some.inj first).symm

/-- A text outside ASCII, in part of surrogate pairs, a double that is whole, and no alternate. -/
theorem dumps_lossless_unicode :
    ∃ program stream, Program.ofSource "let x = \"é😀\"; if (true) print(1.0);" none = .ok program ∧
      TokenStream.ofSource "let x = \"é😀\"; if (true) print(1.0);" = .ok stream ∧
      program.bare = [.declare "x" (.literal (.string "é😀")),
        .branch (.literal (.boolean true))
          (.print (.literal (.number (.double (Decimal.toDouble false ⟨10, -1⟩))))) none] ∧
      Ascii program.dump.toList ∧ Program.ofDump? program.dump = some program ∧
      Ascii stream.dump.toList ∧ TokenStream.ofDump? stream.dump = some stream ∧
      ∀ source' file' program', Program.ofSource source' file' = .ok program' →
        program.dump = program'.dump → program = program' := by
  have declared (next : Option Lexeme) : Grammar.Statement next _
      (.declare "x" (.literal (.string "é😀"))) :=
    .declare (Grammar.Primary.expression .string)
  have printed : Grammar.Statement none _
      (.print (.literal (.number (.double (Decimal.toDouble false ⟨10, -1⟩))))) :=
    .print (Grammar.Primary.expression .number)
  have branched : Grammar.Statement none _ (.branch (.literal (.boolean true)) _ none) :=
    .branch (Grammar.Primary.expression .boolean) printed nofun
  obtain ⟨program, parsed, bare⟩ := @Program.exists_ofSource
    "let x = \"é😀\"; if (true) print(1.0);" _ _ (by decide +kernel)
    (.cons (declared _) (@Grammar.Statements.cons _ _ none [] [] branched .nil)) none
  obtain ⟨stream, tokens, _⟩ := Program.ofSource_eq_ok.mp parsed
  obtain ⟨programs, streams, injective⟩ := dumps_lossless
  obtain ⟨ascii, decoded⟩ := programs _ _ program parsed
  obtain ⟨ascii', decoded'⟩ := streams stream
  exact ⟨program, stream, parsed, tokens, bare, ascii, decoded, ascii', decoded',
    fun source' file' program' parsed' same => injective _ _ _ _ _ _ parsed parsed' same⟩

end ScriptKit
