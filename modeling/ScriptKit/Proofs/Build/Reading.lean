import ScriptKit.Proofs.Build.Flattening
import ScriptKit.Proofs.Program.Governing

/-!
How the text of a build is read. It is read as the flattened program, in which conditions and loops
govern all that was imported below them, only if nothing imported in a place for one statement comes
to more than one, and nothing imported before an `else` takes that `else`.
-/
namespace ScriptKit

theorem SourceFile.load_written (loaded : load workspace path = .ok program) :
    Bare.Statement.AllUse Lexeme.Written program.bare := by
  obtain ⟨_, _, _, _, parsed⟩ := load_eq_ok loaded
  obtain ⟨stream, tokens, success⟩ := Program.ofSource_eq_ok.mp parsed
  exact (parseProgram_derives success).uses (tokensFrom_written tokens)

namespace Build

section
variable {settings : BuildSettings} {start : Workspace} {roots : List String}

/-- The flattened program has what its files have. -/
theorem Flattens.allUse
    (common : ∀ file program, Reachable start roots file →
      SourceFile.load start file = .ok program → Bare.Statement.CommonAll program.bare)
    (flattens : Flattens start path flat) (reachable : Reachable start roots path) :
    Bare.Statement.AllUse Lexeme.Shared flat.bare := by
  induction flattens with
  | @loaded path program parts load inner ih =>
    refine Statement.allUse_splice program.body (SourceFile.load_written load)
      (common path program reachable load) fun span name member => ?_
    exact ih span name member
      (reachable.imports ⟨program, span, name, load, member, rfl⟩)

/-- What a file with all it imports shows when its text has as many braces as its flattened program
has blocks. -/
theorem Flattens.spells (complete : Complete settings start roots)
    (common : ∀ file program, Reachable start roots file →
      SourceFile.load start file = .ok program → Bare.Statement.CommonAll program.bare)
    (flattens : Flattens start path flat) (reachable : Reachable start roots path) :
    ∃ code, Inlines start path (.ok code) ∧
      Spells code (Statement.blocksAll flat.body)
        (∀ file, Relation.ReflTransGen (Imports start) path file → Tight start file) ∧
      ∀ program, SourceFile.load start path = .ok program → program.body ≠ [] →
        flat.body ≠ [] ∧ code ≠ "" := by
  induction flattens with
  | @loaded path program parts load inner ih =>
    have inlined : ∀ name, ∃ code, ∀ span, .site span name ∈ program.emit →
        Inlines start (importTarget path name) (.ok code) ∧
        Spells code (Statement.blocksAll (parts name).body) (∀ file,
          Relation.ReflTransGen (Imports start) (importTarget path name) file → Tight start file) ∧
        (parts name).body ≠ [] ∧ code ≠ "" := by
      intro name
      by_cases imported : ∃ span, .site span name ∈ program.emit
      · obtain ⟨span, member⟩ := imported
        have imports : Imports start path (importTarget path name) :=
          ⟨program, span, name, load, member, rfl⟩
        have reachable' := reachable.imports imports
        obtain ⟨program', load'⟩ := complete.loads _ reachable'
        obtain ⟨code, inlines, spells, present⟩ := ih span name member reachable'
        exact ⟨code, fun _ _ => ⟨inlines, spells, present program' load'
          (complete.present path _ program' reachable imports load')⟩⟩
      · exact ⟨"", fun span member => absurd ⟨span, member⟩ imported⟩
    obtain ⟨codes, inlined⟩ := Classical.skolem.mp inlined
    have whole := Inlines.loaded load <| inlinesAll_filled fun span name member =>
      ⟨(inlined name span member).1, (inlined name span member).2.2.2⟩
    have spells := Statement.spellsAll_splice program.body (SourceFile.load_written load)
      (common path program reachable load) fun span name member =>
        ⟨(inlined name span member).2.2.1, (inlined name span member).2.1⟩
    refine ⟨filled codes program.emit, whole, spells.imp fun squared file leads => ?_, ?_⟩
    · rcases leads.cases_head with rfl | ⟨target, ⟨program', span, name, load', site, rfl⟩, leads⟩
      · intro program' name flat load' member flattens
        cases load.symm.trans load'
        obtain ⟨span, site⟩ := Statement.exists_site_of_loneAll program.body member
        obtain rfl := (inner span name site).unique flattens
        exact squared.single name member
      · cases load.symm.trans load'
        exact squared.sites span name site file leads
    · intro program' load' present
      cases load.symm.trans load'
      exact ⟨Statement.spliceAll_ne_nil present fun span name member =>
          (inlined name span member).2.2.1,
        Statement.filled_emitAll_ne present fun span name member =>
          (inlined name span member).2.2.2⟩

end

section
variable {settings : BuildSettings} {workspace : Workspace} {path : String}

/-- Where the files of a project print nothing and have common literals only, the text of a file is
read as its flattened program exactly if two things hold: what is imported in a place for one
statement comes to one statement, and nothing that would take an `else` comes before one. In the
flattened program, an `if` or a loop governs all that its import stands for, and an `else` belongs to
the `if` that it was written for. -/
theorem compile_reads_iff (complete : Complete settings workspace [workspace.absolute path])
    (common : ∀ file program, Reachable workspace [workspace.absolute path] file →
      SourceFile.load workspace file = .ok program → Bare.Statement.CommonAll program.bare)
    (returned : ((compile settings path).run.run (.fresh workspace)).1 = .ok code)
    (file : Option String) :
    ∃ flat, (∀ other, Flattens workspace (workspace.absolute path) other ↔ other = flat) ∧
      ((∃ again, Program.ofSource code file = .ok again ∧
          again.bare = Bare.Statement.blockedAll flat.bare) ↔
        (∀ other, Reachable workspace [workspace.absolute path] other → Tight workspace other) ∧
          Bare.Statement.pairedAll (Bare.Statement.blockedAll flat.bare) = true) := by
  obtain ⟨flat, flattens⟩ := complete.exists_flattens
  have reachable : Reachable workspace [workspace.absolute path] (workspace.absolute path) :=
    ⟨_, List.mem_cons_self, .refl⟩
  have inlines := complete.inlines_of_compile returned
  refine ⟨flat, fun other => ⟨flattens.unique, ?_⟩, ?_, ?_⟩
  · rintro rfl
    exact flattens
  · rintro ⟨again, parsed, same⟩
    obtain ⟨_, inlines', spells, _⟩ := flattens.spells complete common reachable
    cases inlines'.unique inlines
    obtain ⟨tight, paired⟩ := spells.of_reads parsed same
    refine ⟨fun other reachable' => tight other ?_, paired⟩
    obtain ⟨root, member, leads⟩ := reachable'
    exact List.mem_singleton.mp member ▸ leads
  · rintro ⟨tight, paired⟩
    obtain ⟨closed, inlines', _⟩ := flattens.inlines complete tight reachable
    cases inlines'.unique inlines
    obtain ⟨code, again, emitted, reads⟩ :=
      flat.reads_of_paired (flattens.allUse common reachable) paired file
    cases emitted.symm.trans (closed.standalone none fun _ => "")
    exact ⟨again, reads⟩

end

def choiceText : String := "if (true) import(\"q.as\"); else import(\"q.as\");"

def choiceProgram : Program :=
  ⟨⟨⟨1, 1⟩, ⟨1, 46⟩⟩, [.branch ⟨⟨1, 1⟩, ⟨1, 46⟩⟩ (.literal (.point ⟨1, 5⟩) (.boolean true))
    (.importFile ⟨⟨1, 11⟩, ⟨1, 25⟩⟩ "q.as") (some (.importFile ⟨⟨1, 32⟩, ⟨1, 46⟩⟩ "q.as"))]⟩

def oneText : String := "let x = true;"

def oneProgram : Program :=
  ⟨⟨⟨1, 1⟩, ⟨1, 13⟩⟩, [.declare ⟨⟨1, 1⟩, ⟨1, 13⟩⟩ "x" (.literal (.point ⟨1, 9⟩) (.boolean true))]⟩

private theorem choice_parsed (file : Option String) :
    Program.ofSource choiceText file = .ok choiceProgram := by
  have tokens : TokenStream.ofSource choiceText = .ok
      ⟨[⟨.keyword .ifWord, ⟨1, 1⟩⟩, ⟨.symbol .leftParen, ⟨1, 4⟩⟩, ⟨.boolean true, ⟨1, 5⟩⟩,
        ⟨.symbol .rightParen, ⟨1, 9⟩⟩, ⟨.keyword .importWord, ⟨1, 11⟩⟩,
        ⟨.symbol .leftParen, ⟨1, 17⟩⟩, ⟨.string "q.as", ⟨1, 18⟩⟩, ⟨.symbol .rightParen, ⟨1, 24⟩⟩,
        ⟨.symbol .semicolon, ⟨1, 25⟩⟩, ⟨.keyword .elseWord, ⟨1, 27⟩⟩,
        ⟨.keyword .importWord, ⟨1, 32⟩⟩, ⟨.symbol .leftParen, ⟨1, 38⟩⟩, ⟨.string "q.as", ⟨1, 39⟩⟩,
        ⟨.symbol .rightParen, ⟨1, 45⟩⟩, ⟨.symbol .semicolon, ⟨1, 46⟩⟩], ⟨1, 47⟩⟩ := by decide +kernel
  simp [Program.ofSource, tokens, Program.ofStream, parseProgram, parseStatements, parseStatement,
    parseCondition, expectSymbol, expectString, parseExpression, tierCount, parseTiers, parsePrimary,
    parseChain, infixOf?, bind, Except.bind, pure, Except.pure, choiceProgram]

theorem one_parsed (file : Option String) : Program.ofSource oneText file = .ok oneProgram := by
  have tokens : TokenStream.ofSource oneText = .ok
      ⟨[⟨.keyword .letWord, ⟨1, 1⟩⟩, ⟨.identifier "x", ⟨1, 5⟩⟩, ⟨.symbol .assign, ⟨1, 7⟩⟩,
        ⟨.boolean true, ⟨1, 9⟩⟩, ⟨.symbol .semicolon, ⟨1, 13⟩⟩], ⟨1, 14⟩⟩ := by decide +kernel
  simp [Program.ofSource, tokens, Program.ofStream, parseProgram, parseStatements, parseStatement,
    expectSymbol, expectIdentifier, parseExpression, tierCount, parseTiers, parsePrimary, parseChain,
    infixOf?, bind, Except.bind, pure, Except.pure, oneProgram]

private theorem choice_only (span : Span) (name : String)
    (member : .site span name ∈ choiceProgram.emit) :
    name = "q.as" := by
  simp [choiceProgram, Program.emit, Statement.emitAll, Statement.emit] at member
  rcases member with ⟨_, same⟩ | ⟨_, same⟩ <;> exact same

private theorem duo_choice_two : Duo choiceText twoText choiceProgram twoProgram := by
  obtain ⟨first, second⟩ := @duo_read choiceText twoText (by decide) (by decide)
  exact ⟨SourceFile.load_eq first (choice_parsed _), SourceFile.load_eq second (two_parsed _),
    choice_only, duo_twice.closed, duo_twice.present⟩

private theorem duo_choice_one : Duo choiceText oneText choiceProgram oneProgram := by
  obtain ⟨first, second⟩ := @duo_read choiceText oneText (by decide) (by decide)
  refine ⟨SourceFile.load_eq first (choice_parsed _), SourceFile.load_eq second (one_parsed _),
    choice_only, ?_, List.cons_ne_nil _ _⟩
  intro span name member
  simp [oneProgram, Program.emit, Statement.emitAll, Statement.emit] at member

/-- Two statements in the place of one: the second ends the `if`, and the `else` has none. -/
def brokenCode : String :=
  "if (true) let x = true;\nlet y = false; else let x = true;\nlet y = false;"

private theorem broken_rejected : Program.ofSource brokenCode file ≠ .ok again := by
  have tokens : TokenStream.ofSource brokenCode = .ok
      ⟨[⟨.keyword .ifWord, ⟨1, 1⟩⟩, ⟨.symbol .leftParen, ⟨1, 4⟩⟩, ⟨.boolean true, ⟨1, 5⟩⟩,
        ⟨.symbol .rightParen, ⟨1, 9⟩⟩, ⟨.keyword .letWord, ⟨1, 11⟩⟩, ⟨.identifier "x", ⟨1, 15⟩⟩,
        ⟨.symbol .assign, ⟨1, 17⟩⟩, ⟨.boolean true, ⟨1, 19⟩⟩, ⟨.symbol .semicolon, ⟨1, 23⟩⟩,
        ⟨.keyword .letWord, ⟨2, 1⟩⟩, ⟨.identifier "y", ⟨2, 5⟩⟩, ⟨.symbol .assign, ⟨2, 7⟩⟩,
        ⟨.boolean false, ⟨2, 9⟩⟩, ⟨.symbol .semicolon, ⟨2, 14⟩⟩, ⟨.keyword .elseWord, ⟨2, 16⟩⟩,
        ⟨.keyword .letWord, ⟨2, 21⟩⟩, ⟨.identifier "x", ⟨2, 25⟩⟩, ⟨.symbol .assign, ⟨2, 27⟩⟩,
        ⟨.boolean true, ⟨2, 29⟩⟩, ⟨.symbol .semicolon, ⟨2, 33⟩⟩, ⟨.keyword .letWord, ⟨3, 1⟩⟩,
        ⟨.identifier "y", ⟨3, 5⟩⟩, ⟨.symbol .assign, ⟨3, 7⟩⟩, ⟨.boolean false, ⟨3, 9⟩⟩,
        ⟨.symbol .semicolon, ⟨3, 14⟩⟩], ⟨3, 15⟩⟩ := by decide +kernel
  simp [Program.ofSource, tokens, Program.ofStream, parseProgram, parseStatements, parseStatement,
    parseCondition, expectSymbol, expectIdentifier, parseExpression, tierCount, parseTiers,
    parsePrimary, parseChain, infixOf?, bind, Except.bind, pure, Except.pure]

private theorem choice_common : Bare.Statement.CommonAll choiceProgram.bare :=
  ⟨⟨trivial, trivial, trivial⟩, trivial⟩

/-- The conditions on a project do not keep the text of a build from being no program at all. -/
theorem compile_unreadable :
    Complete (pairSettings "out") (duoProject choiceText twoText) ["/p.as"] ∧
    Bare.Statement.CommonAll choiceProgram.bare ∧ Bare.Statement.CommonAll twoProgram.bare ∧
    ((compile (pairSettings "out") "p.as").run.run (.fresh (duoProject choiceText twoText))).1 =
      .ok brokenCode ∧
    ∀ file again, Program.ofSource brokenCode file ≠ .ok again := by
  have text : filled (fun _ => filled (fun _ => "") twoProgram.emit) choiceProgram.emit =
      brokenCode := by rfl
  exact ⟨duo_choice_two.complete, choice_common, ⟨trivial, trivial, trivial⟩,
    text ▸ duo_choice_two.compile_eq, fun _ _ => broken_rejected⟩

/-- What an import in a place for one statement stands for, in a project of two files. -/
theorem Duo.tight {outer inner : String} (duo : Duo outer inner program program')
    (single : ∃ only, (lastFlat program').body = [only])
    (reachable : Reachable (duoProject outer inner) ["/p.as"] file) :
    Tight (duoProject outer inner) file := by
  intro loaded name flat load member flattens
  rcases duo.reachable reachable with rfl | rfl
  · cases duo.first.symm.trans load
    obtain ⟨span, site⟩ := Statement.exists_site_of_loneAll program.body member
    cases duo.only span name site
    rw [pair_targets.1] at flattens
    obtain rfl := duo.flattens_second.unique flattens
    exact single
  · cases duo.second.symm.trans load
    obtain ⟨span, site⟩ := Statement.exists_site_of_loneAll program'.body member
    exact absurd site (duo.closed span name)

def choiceCode : String := "if (true) let x = true; else let x = true;"

/-- One statement in the place of one. -/
theorem compile_reads_choice :
    Complete (pairSettings "out") (duoProject choiceText oneText) ["/p.as"] ∧
    Bare.Statement.CommonAll choiceProgram.bare ∧ Bare.Statement.CommonAll oneProgram.bare ∧
    ((compile (pairSettings "out") "p.as").run.run (.fresh (duoProject choiceText oneText))).1 =
      .ok choiceCode ∧
    ∃ again, Program.ofSource choiceCode none = .ok again ∧
      again.bare = [.branch (.literal (.boolean true)) (.declare "x" (.literal (.boolean true)))
        (some (.declare "x" (.literal (.boolean true))))] := by
  have common : ∀ file program, Reachable (duoProject choiceText oneText) ["/p.as"] file →
      SourceFile.load (duoProject choiceText oneText) file = .ok program →
        Bare.Statement.CommonAll program.bare := by
    intro file program reachable load
    rcases duo_choice_one.reachable reachable with rfl | rfl
    · cases duo_choice_one.first.symm.trans load
      exact choice_common
    · cases duo_choice_one.second.symm.trans load
      exact ⟨trivial, trivial⟩
  have text : filled (fun _ => filled (fun _ => "") oneProgram.emit) choiceProgram.emit =
      choiceCode := by rfl
  have returned := duo_choice_one.compile_eq
  rw [text] at returned
  have absolute := duo_absolute choiceText oneText
  have read := @compile_reads_iff (pairSettings "out") (duoProject choiceText oneText) "p.as"
    choiceCode
  rw [absolute] at read
  obtain ⟨flat, exactly, reads⟩ := read duo_choice_one.complete common returned none
  obtain rfl := (exactly _).mp duo_choice_one.flattens
  obtain ⟨again, parsed, same⟩ := reads.mpr ⟨fun _ => duo_choice_one.tight ⟨_, rfl⟩, rfl⟩
  exact ⟨duo_choice_one.complete, choice_common, ⟨trivial, trivial⟩, returned, again, parsed, same⟩

end Build
end ScriptKit
