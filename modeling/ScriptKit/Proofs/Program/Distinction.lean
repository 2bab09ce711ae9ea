import ScriptKit.Proofs.Program.RoundTrip
import ScriptKit.Proofs.Program.Words

/-!
Different programs are emitted differently. The words of an emitted text give back the lexemes of its
program, with blocks for the bodies of functions, and those derive only one tree.
-/
namespace ScriptKit

private theorem words_unique (closed : wordReader.Closes code phrase)
    (closed' : wordReader.Closes code phrase') : phrase = phrase' := by
  obtain ⟨pieces, split, emitted⟩ := closed [] trivial
  obtain ⟨pieces', split', emitted'⟩ := closed' [] trivial
  obtain rfl := List.append_cancel_right (split.symm.trans split')
  exact List.left_unique_forall₂' Lexeme.emitted_leftUnique emitted emitted'

/-- A program of faithful lexemes has a text, whose words derive its tree with blocks for the bodies of
functions. -/
theorem Program.emits_words (parsed : ofSource source file = .ok program)
    (faithful : Bare.Statement.AllUse Lexeme.Faithful program.bare) :
    program.emitStandalone file = .ok (Bare.Statement.codeAll program.bare) ∧
      ∃ phrase, wordReader.Closes (Bare.Statement.codeAll program.bare) phrase ∧
        Grammar.Derives phrase (Bare.Statement.blockedAll program.bare) := by
  obtain ⟨stream, tokens, success⟩ := ofSource_eq_ok.mp parsed
  have derived := parseProgram_derives success
  have used := Bare.Statement.allUse_and _ (derived.uses (tokensFrom_written tokens)) faithful
  have alone : ¬ ((Lexeme.keyword .importWord).Written ∧ (Lexeme.keyword .importWord).Faithful) :=
    fun both => both.2 rfl
  exact ⟨Statement.standaloneAll alone program.body used, _,
    Bare.Statement.closesAll speech_words (fun _ => words_print) alone program.bare used,
    derived.canonical id⟩

/-- Two programs without imports and without doubles that are not finite have the same text only if
they are the same, but for the bodies of functions, which become blocks. -/
theorem Program.emitStandalone_eq_iff (parsed : ofSource source file = .ok program)
    (parsed' : ofSource source' file' = .ok program')
    (faithful : Bare.Statement.AllUse Lexeme.Faithful program.bare)
    (faithful' : Bare.Statement.AllUse Lexeme.Faithful program'.bare) :
    ∃ code code', program.emitStandalone file = .ok code ∧
      program'.emitStandalone file' = .ok code' ∧
      (code = code' ↔
        Bare.Statement.blockedAll program.bare = Bare.Statement.blockedAll program'.bare) := by
  obtain ⟨emitted, phrase, closed, derived⟩ := emits_words parsed faithful
  obtain ⟨emitted', phrase', closed', derived'⟩ := emits_words parsed' faithful'
  refine ⟨_, _, emitted, emitted', ?_⟩
  constructor
  · intro same
    rw [same] at closed
    obtain rfl := words_unique closed closed'
    exact derived.unique derived'
  · intro same
    rw [← Bare.Statement.codeAll_blocked, same, Bare.Statement.codeAll_blocked]

theorem Program.exists_ofSource
    (read : (TokenStream.ofSource source).map (fun stream => lexemes stream.tokens) = .ok phrase)
    (derived : Grammar.Derives phrase trees) (file : Option String) :
    ∃ program, ofSource source file = .ok program ∧ program.bare = trees := by
  obtain ⟨stream, tokens, same⟩ := map_eq_ok read
  rw [same] at derived
  obtain ⟨program, success, bare⟩ := derived.parsed
  exact ⟨program, ofSource_eq_ok.mpr ⟨stream, tokens, success⟩, bare⟩

/-- A line feed, which is escaped, and a double that is written with an exponent. -/
def printedSum : Bare.Expression :=
  .binary .plus (.literal (.string "\n"))
    (.literal (.number (.double (Decimal.toDouble false ⟨200000000000000000, -1⟩))))

private theorem printedSum_faithful : printedSum.Uses Lexeme.Faithful := by
  have finite : (Decimal.toDouble false ⟨200000000000000000, -1⟩).isFinite = true := by
    decide +kernel
  exact ⟨⟨.plus, rfl, trivial⟩, trivial, finite⟩

/-- A body that prints, and the same body as a block. -/
theorem Program.emitStandalone_eq_iff_block :
    ∃ program program',
      ofSource "function f() print((\"\n\" + 20000000000000000.0));" none = .ok program ∧
      ofSource "function f() \x7bprint((\"\n\" + 20000000000000000.0));\x7d" none = .ok program' ∧
      Bare.Statement.AllUse Lexeme.Faithful program.bare ∧
      Bare.Statement.AllUse Lexeme.Faithful program'.bare ∧ program.bare ≠ program'.bare ∧
      ∃ code code', program.emitStandalone none = .ok code ∧
        program'.emitStandalone none = .ok code' ∧
        (code = code' ↔
          Bare.Statement.blockedAll program.bare = Bare.Statement.blockedAll program'.bare) := by
  have value := (Grammar.primary_phrase printedSum printedSum_faithful).expression
  have body : ∀ next, Grammar.Statement next _ (.print printedSum) := fun _ => .print value
  have block : Grammar.Statement none _ (.block [.print printedSum]) :=
    .block (@Grammar.Statements.cons _ _ _ [] [] (body _) .nil)
  obtain ⟨program, parsed, bare⟩ := @Program.exists_ofSource
    "function f() print((\"\n\" + 20000000000000000.0));" _ _ (by decide +kernel)
    (@Grammar.Statements.cons _ _ none [] []
      (@Grammar.Statement.function _ _ _ "f" [] (body none)) .nil) none
  obtain ⟨program', parsed', bare'⟩ := @Program.exists_ofSource
    "function f() \x7bprint((\"\n\" + 20000000000000000.0));\x7d" _ _ (by decide +kernel)
    (@Grammar.Statements.cons _ _ none [] []
      (@Grammar.Statement.function _ _ _ "f" [] block) .nil) none
  have faithful : Bare.Statement.AllUse Lexeme.Faithful program.bare := by
    rw [bare]
    exact ⟨⟨nofun, trivial, nofun, nofun, printedSum_faithful⟩, trivial⟩
  have faithful' : Bare.Statement.AllUse Lexeme.Faithful program'.bare := by
    rw [bare']
    exact ⟨⟨nofun, trivial, nofun, ⟨nofun, printedSum_faithful⟩, trivial⟩, trivial⟩
  have different : program.bare ≠ program'.bare := by
    rw [bare, bare']
    simp
  exact ⟨program, program', parsed, parsed', faithful, faithful', different,
    emitStandalone_eq_iff parsed parsed' faithful faithful'⟩

end ScriptKit
