import ScriptKit.Proofs.Program.Pairing
import ScriptKit.Proofs.Program.Splicing

/-!
How the text of statements with others in the place of imports is read. The text puts no braces around
what an import stands for, the tree has a block where it stands for several statements, so the braces
of the text are as many as the blocks of the tree only if no import in a place for one statement
stands for several.
-/
namespace ScriptKit

/-- Lexemes that are written the same in both languages. -/
abbrev Lexeme.Shared : Lexeme → Prop := fun lexeme => lexeme.Written ∧ lexeme.Common

namespace Bare

mutual

/-- Prints nothing and has common literals only. What is imported does not count. -/
def Statement.Common : Statement → Prop
  | .declare _ value => value.Uses Lexeme.Common
  | .assign _ value => value.Uses Lexeme.Common
  | .block body => Statement.CommonAll body
  | .branch test consequent none => test.Uses Lexeme.Common ∧ consequent.Common
  | .branch test consequent (some alternate) =>
    test.Uses Lexeme.Common ∧ consequent.Common ∧ alternate.Common
  | .loop test body => test.Uses Lexeme.Common ∧ body.Common
  | .function _ _ body => body.Common
  | .giveBack argument => argument.Uses Lexeme.Common
  | .print _ => False
  | .importFile _ => True
  | .call _ arguments => Expression.AllUse Lexeme.Common arguments

def Statement.CommonAll : List Statement → Prop
  | [] => True
  | statement :: rest => statement.Common ∧ Statement.CommonAll rest

end

theorem Statement.blockedAll_append (trees more : List Statement) :
    Statement.blockedAll (trees ++ more) =
      Statement.blockedAll trees ++ Statement.blockedAll more := by
  induction trees with
  | nil => rfl
  | cons tree trees ih => simp [Statement.blockedAll, ih]

theorem Statement.blocksAll_append (trees more : List Statement) :
    Statement.blocksAll (trees ++ more) = Statement.blocksAll trees + Statement.blocksAll more := by
  induction trees with
  | nil => simp [Statement.blocksAll]
  | cons tree trees ih =>
    simp [Statement.blocksAll, ih, Nat.add_assoc]

theorem Statement.allUse_append {holds : Lexeme → Prop} {trees more : List Statement}
    (first : Statement.AllUse holds trees) (second : Statement.AllUse holds more) :
    Statement.AllUse holds (trees ++ more) := by
  induction trees with
  | nil => exact second
  | cons tree trees ih => exact ⟨first.1, ih first.2⟩

end Bare

theorem Statement.bareAll_append (statements more : List Statement) :
    Statement.bareAll (statements ++ more) =
      Statement.bareAll statements ++ Statement.bareAll more := by
  induction statements with
  | nil => rfl
  | cons statement rest ih => simp [Statement.bareAll, ih]

section
variable {parts : String → List Statement}

theorem Statement.uses_gathered {holds : Lexeme → Prop} (span : Span)
    (all : Bare.Statement.AllUse holds (Statement.bareAll statements)) :
    (Statement.gathered span statements).bare.Uses holds := by
  unfold Statement.gathered
  split
  · exact all.1
  · exact all

mutual

/-- What stands for the imports is shared, so the whole is. -/
theorem Statement.uses_splice : (statement : Statement) →
    statement.bare.Uses Lexeme.Written → statement.bare.Common →
    (∀ span path, .site span path ∈ statement.emit →
      Bare.Statement.AllUse Lexeme.Shared (Statement.bareAll (parts path))) →
    (statement.splice parts).bare.Uses Lexeme.Shared
  | .declare _ _ value, ⟨word, named, used⟩, common, _ =>
    ⟨⟨word, nofun, nofun⟩, ⟨named, trivial⟩, value.bare.uses_and used common⟩
  | .assign _ _ value, ⟨named, used⟩, common, _ =>
    ⟨⟨named, trivial⟩, value.bare.uses_and used common⟩
  | .block _ body, used, common, inner =>
    Statement.allUse_splice body used common fun span path member => inner span path (by
      simp [Statement.emit, braced, member])
  | .branch _ test consequent none, ⟨word, condition, used⟩, ⟨tested, common⟩, inner =>
    ⟨⟨word, nofun, nofun⟩, test.bare.uses_and condition tested,
      consequent.uses_splice used common fun span path member => inner span path (by
        simp [Statement.emit, member])⟩
  | .branch _ test consequent (some alternate), ⟨word, condition, used, word', used'⟩,
      ⟨tested, common, common'⟩, inner =>
    ⟨⟨word, nofun, nofun⟩, test.bare.uses_and condition tested,
      consequent.uses_splice used common fun span path member => inner span path (by
        simp [Statement.emit, member]),
      ⟨word', nofun, nofun⟩,
      alternate.uses_splice used' common' fun span path member => inner span path (by
        simp [Statement.emit, member])⟩
  | .loop _ test body, ⟨word, condition, used⟩, ⟨tested, common⟩, inner =>
    ⟨⟨word, nofun, nofun⟩, test.bare.uses_and condition tested,
      body.uses_splice used common fun span path member => inner span path (by
        simp [Statement.emit, member])⟩
  | .function _ name parameters body, ⟨word, named, names, used⟩, common, inner => by
    refine ⟨⟨word, by decide, by decide⟩, ⟨named, trivial⟩,
      fun parameter member => ⟨names parameter member, trivial⟩, ?_⟩
    cases found : body.import? with
    | some imported =>
      cases import?_eq_some found
      exact inner imported.1 imported.2 (by simp [Statement.emit, Statement.isBlock, braced])
    | none =>
      exact body.uses_splice used common fun span path member => inner span path (by
        rw [Statement.emit]
        split <;> simp [braced, member])
  | .giveBack _ argument, ⟨word, used⟩, common, _ =>
    ⟨⟨word, nofun, nofun⟩, argument.bare.uses_and used common⟩
  | .print _ _, _, common, _ => common.elim
  | .importFile span path, _, _, inner =>
    Statement.uses_gathered span (inner span path List.mem_cons_self)
  | .call _ _ arguments, ⟨named, used⟩, common, _ =>
    ⟨⟨named, trivial⟩, Bare.Expression.allUse_and _ used common⟩

theorem Statement.allUse_splice : (statements : List Statement) →
    Bare.Statement.AllUse Lexeme.Written (Statement.bareAll statements) →
    Bare.Statement.CommonAll (Statement.bareAll statements) →
    (∀ span path, .site span path ∈ Statement.emitAll statements →
      Bare.Statement.AllUse Lexeme.Shared (Statement.bareAll (parts path))) →
    Bare.Statement.AllUse Lexeme.Shared
      (Statement.bareAll (Statement.spliceAll parts statements))
  | [], _, _, _ => trivial
  | statement :: rest, ⟨used, others⟩, ⟨common, commons⟩, inner => by
    have here : ∀ span path, .site span path ∈ statement.emit →
        Bare.Statement.AllUse Lexeme.Shared (Statement.bareAll (parts path)) :=
      fun span path member => inner span path (emit_subset_emitAll statement rest member)
    have first : Bare.Statement.AllUse Lexeme.Shared
        (Statement.bareAll (Statement.spread parts statement)) := by
      unfold Statement.spread
      cases found : statement.import? with
      | some imported =>
        cases import?_eq_some found
        exact here imported.1 imported.2 List.mem_cons_self
      | none => exact ⟨statement.uses_splice used common here, trivial⟩
    rw [spliceAll_cons, Statement.bareAll_append]
    exact Bare.Statement.allUse_append first (Statement.allUse_splice rest others commons
      fun span path member => inner span path (emitAll_subset_cons statement rest member))

end

end

/-- A text is read as a phrase that opens no more braces than `full`, and so many only if the claim
holds. -/
def Spells (code : String) (full : Nat) (claim : Prop) : Prop :=
  ∃ phrase, Closed False code phrase ∧ braces phrase ≤ full ∧ (braces phrase = full → claim)

namespace Spells

variable {claim other : Prop}

theorem of_closed (closed : Closed False code phrase) (opens : braces phrase = full)
    (holds : claim) : Spells code full claim :=
  ⟨phrase, closed, Nat.le_of_eq opens, fun _ => holds⟩

theorem imp (spells : Spells code full claim) (implies : claim → other) : Spells code full other := by
  obtain ⟨phrase, closed, fewer, exactly⟩ := spells
  exact ⟨phrase, closed, fewer, fun same => implies (exactly same)⟩

theorem append (first : Spells code full claim) (second : Spells code' full' other) :
    Spells (code ++ code') (full + full') (claim ∧ other) := by
  obtain ⟨phrase, closed, fewer, exactly⟩ := first
  obtain ⟨phrase', closed', fewer', exactly'⟩ := second
  refine ⟨phrase ++ phrase', closed.append closed', ?_, ?_⟩
  · rw [braces_append]
    omega
  · intro same
    rw [braces_append] at same
    exact ⟨exactly (by omega), exactly' (by omega)⟩

/-- Text before it that opens no braces. -/
theorem after (head : Closed False code phrase) (none' : braces phrase = 0)
    (spells : Spells code' full claim) : Spells (code ++ code') full claim := by
  have whole := (of_closed head none' trivial).append spells
  rw [Nat.zero_add] at whole
  exact whole.imp And.right

theorem braced (spells : Spells code full claim) : Spells (Bare.bracedCode code) (full + 1) claim := by
  obtain ⟨phrase, closed, fewer, exactly⟩ := spells
  have opens : braces (.symbol .leftBrace :: (phrase ++ [.symbol .rightBrace])) = braces phrase + 1 := by
    rw [braces_open, braces_append]
    rfl
  refine ⟨_, closed_braced closed, ?_, ?_⟩
  · rw [opens]
    omega
  · intro same
    rw [opens] at same
    exact exactly (by omega)

end Spells

private theorem braces_condition {test : Bare.Expression} (used : test.Uses holds)
    (other : word ≠ .symbol .leftBrace) :
    braces (word :: .symbol .leftParen :: (test.phrase Literal.phrase ++ [.symbol .rightParen])) =
      0 := by
  rw [braces_cons other, braces_cons (by simp), braces_append,
    (Grammar.primary_phrase test used).braces]
  rfl

private theorem not_shared_import : ¬ (Lexeme.keyword .importWord).Shared :=
  fun both => both.2.2 rfl

private theorem not_shared_print : ¬ (Lexeme.keyword .printWord).Shared := fun both => both.2.1 rfl

/-- The blocks that some statements have, with blocks for the bodies of functions. -/
def Statement.blocksAll (statements : List Statement) : Nat :=
  Bare.Statement.blocksAll (Bare.Statement.blockedAll (Statement.bareAll statements))

def Statement.blocks (statement : Statement) : Nat := statement.bare.blocked.blocks

section
variable {parts : String → List Statement} {codes : String → String} {holds : String → Prop}

/-- A statement that has no other one inside. -/
theorem Statement.spells_leaf {statement : Statement} (codes : String → String)
    (used : statement.bare.Uses Lexeme.Shared) (paired : statement.bare.blocked.paired = true) :
    Spells (filled codes statement.emit) statement.blocks True := by
  have closed : Closed False _ _ :=
    statement.bare.closed speech_common not_shared_print not_shared_import used
  have derived : Grammar.Statement none _ _ :=
    Grammar.statement_phrase _ (statement.bare.uses_blocked used) paired nofun
  have text : standaloneText none statement.emit = .ok statement.bare.code :=
    statement.standalone not_shared_import used
  rw [filled_eq_of_standalone codes text]
  exact .of_closed closed derived.braces trivial

/-- What an import stands for: some statements, and a text with no more braces than these have
blocks. -/
structure Tells (parts : String → List Statement) (codes : String → String) (holds : String → Prop)
    (path : String) : Prop where
  present : parts path ≠ []
  spells : Spells (codes path) (Statement.blocksAll (parts path)) (holds path)

/-- What is shown by a text with as many braces as its statements have blocks: every import in a place
for one statement stands for one, and each import is such a text. -/
structure Squared (parts : String → List Statement) (holds : String → Prop) (alone : List String)
    (fragments : List Fragment) : Prop where
  single : ∀ path ∈ alone, ∃ only, parts path = [only]
  sites : ∀ span path, .site span path ∈ fragments → holds path

namespace Squared

theorem nil : Squared parts holds [] [] := ⟨nofun, nofun⟩

theorem text (code : String) (squared : Squared parts holds alone fragments) :
    Squared parts holds alone (.text code :: fragments) := by
  refine ⟨squared.single, fun span path member => ?_⟩
  rcases List.mem_cons.mp member with impossible | member
  · cases impossible
  · exact squared.sites span path member

theorem append (first : Squared parts holds alone fragments)
    (second : Squared parts holds alone' fragments') :
    Squared parts holds (alone ++ alone') (fragments ++ fragments') := by
  refine ⟨fun path member => ?_, fun span path member => ?_⟩
  · rcases List.mem_append.mp member with member | member
    · exact first.single path member
    · exact second.single path member
  · rcases List.mem_append.mp member with member | member
    · exact first.sites span path member
    · exact second.sites span path member

theorem braced (squared : Squared parts holds alone fragments) :
    Squared parts holds alone (braced fragments) := by
  have closed := squared.append (nil.text "\n\x7d")
  rw [List.append_nil] at closed
  exact closed.text _

theorem site (holds' : holds path) (span : Span) : Squared parts holds [] [.site span path] := by
  refine ⟨nofun, fun span' path' member => ?_⟩
  cases List.mem_singleton.mp member
  exact holds'

end Squared

private theorem filled_braced (codes : String → String) (fragments : List Fragment) :
    filled codes (braced fragments) = Bare.bracedCode (filled codes fragments) := by
  simp [braced, filled, filled_append, Bare.bracedCode, String.append_assoc]

/-- A statement without imports inside that is emitted as one text. -/
theorem Statement.spells_single {statement : Statement} (emitted : statement.emit = [.text code])
    (same : statement.splice parts = statement) (empty : statement.lone = [])
    (paired : statement.bare.blocked.paired = true)
    (used : statement.bare.Uses Lexeme.Written) (common : statement.bare.Common) :
    Spells (filled codes statement.emit) (statement.splice parts).blocks
      (Squared parts holds statement.lone statement.emit) := by
  have shared : (statement.splice parts).bare.Uses Lexeme.Shared :=
    statement.uses_splice used common fun span path member => by simp [emitted] at member
  rw [same] at shared ⊢
  refine (Statement.spells_leaf codes shared paired).imp fun _ => ?_
  rw [empty, emitted]
  exact .text code .nil

/-- An import in a place for one statement. -/
theorem Tells.gathered (tells : Tells parts codes holds path) (span : Span) :
    Spells (filled codes [.site span path]) (Statement.gathered span (parts path)).blocks
      (Squared parts holds [path] [.site span path]) := by
  obtain ⟨present, phrase, closed, fewer, exactly⟩ := tells
  have text : filled codes [.site span path] = codes path := String.append_empty
  rw [text]
  refine ⟨phrase, closed, ?_⟩
  match found : parts path, present with
  | [only], _ =>
    have alone : (Statement.gathered span [only]).blocks = Statement.blocksAll [only] := rfl
    rw [found] at fewer exactly
    rw [alone]
    refine ⟨fewer, fun same => ?_⟩
    have here : Squared parts holds [] [.site span path] := .site (exactly same) span
    refine ⟨fun other member => ?_, here.sites⟩
    rw [List.mem_singleton.mp member]
    exact ⟨only, found⟩
  | first :: second :: rest, _ =>
    have block : (Statement.gathered span (first :: second :: rest)).blocks =
      Statement.blocksAll (first :: second :: rest) + 1 := rfl
    rw [found] at fewer
    rw [block]
    exact ⟨by omega, fun same => by omega⟩

/-- An import that is the body of a function. -/
theorem Tells.body (tells : Tells parts codes holds path) (span : Span) (name : String)
    (parameters : List String) (place : Span) :
    Spells (filled codes (braced [.site place path]))
      (Statement.splice parts (.function span name parameters (.importFile place path))).blocks
      (Squared parts holds [] (braced [.site place path])) := by
  have text : filled codes [.site place path] = codes path := String.append_empty
  have block : (Statement.splice parts
      (.function span name parameters (.importFile place path))).blocks =
        Statement.blocksAll (parts path) + 1 := rfl
  rw [filled_braced, text, block]
  exact tells.spells.braced.imp fun holds' => (Squared.site holds' place).braced

/-- Any other body gets braces unless it has them already. -/
theorem Statement.spells_body {body : Statement} (spells : Spells (filled codes body.emit)
      (body.splice parts).blocks (Squared parts holds body.lone body.emit))
    (apart : body.import? = none) (span : Span) (name : String) (parameters : List String) :
    Spells (filled codes (if body.isBlock then body.emit else braced body.emit))
      (Statement.splice parts (.function span name parameters body)).blocks
      (Squared parts holds (Statement.lone (.function span name parameters body))
        (if body.isBlock then body.emit else braced body.emit)) := by
  have inner : Statement.splice parts (.function span name parameters body) =
      .function span name parameters (body.splice parts) := by
    rw [Statement.splice, apart]
  have alone : Statement.lone (.function span name parameters body) = body.lone := by
    rw [Statement.lone, apart]
    rfl
  rw [inner, alone, Statement.blocks, Statement.bare, Bare.Statement.blocked,
    Bare.Statement.blocks, Statement.isBlock_bare, Statement.isBlock_splice apart]
  split
  · exact spells
  · rw [filled_braced]
    exact spells.braced.imp .braced

mutual

/-- The text of a statement has no more braces than blocks are in it after splicing. -/
theorem Statement.spells_splice : (statement : Statement) →
    statement.bare.Uses Lexeme.Written → statement.bare.Common →
    (∀ span path, .site span path ∈ statement.emit → Tells parts codes holds path) →
    Spells (filled codes statement.emit) (statement.splice parts).blocks
      (Squared parts holds statement.lone statement.emit)
  | .declare .., used, common, _ => Statement.spells_single rfl rfl rfl rfl used common
  | .assign .., used, common, _ => Statement.spells_single rfl rfl rfl rfl used common
  | .giveBack .., used, common, _ => Statement.spells_single rfl rfl rfl rfl used common
  | .call .., used, common, _ => Statement.spells_single rfl rfl rfl rfl used common
  | .print .., _, common, _ => common.elim
  | .importFile span path, _, _, tells => (tells span path List.mem_cons_self).gathered span
  | .block _ body, used, common, tells => by
    have inner := Statement.spellsAll_splice body used common fun span path member =>
      tells span path (by simp [Statement.emit, braced, member])
    rw [Statement.emit, filled_braced]
    exact inner.braced.imp .braced
  | .branch _ test consequent none, ⟨_, condition, used⟩, ⟨tested, common⟩, tells => by
    have shared := test.bare.uses_and condition tested
    have inner := consequent.spells_splice used common fun span path member =>
      tells span path (by simp [Statement.emit, member])
    rw [Statement.emit, filled, test.emit_eq]
    exact (inner.after (closed_if (test.bare.lexes speech_common shared))
      (braces_condition shared (by simp))).imp (.text _)
  | .branch _ test consequent (some alternate), ⟨_, condition, used, _, used'⟩,
      ⟨tested, common, common'⟩, tells => by
    have shared := test.bare.uses_and condition tested
    have first := consequent.spells_splice used common fun span path member =>
      tells span path (by simp [Statement.emit, member])
    have second := alternate.spells_splice used' common' fun span path member =>
      tells span path (by simp [Statement.emit, member])
    rw [Statement.emit, filled, filled_append, filled, test.emit_eq]
    exact ((first.append (second.after closed_else rfl)).after
      (closed_if (test.bare.lexes speech_common shared)) (braces_condition shared (by simp))).imp
        fun both => (both.1.append (both.2.text _)).text _
  | .loop _ test body, ⟨_, condition, used⟩, ⟨tested, common⟩, tells => by
    have shared := test.bare.uses_and condition tested
    have inner := body.spells_splice used common fun span path member =>
      tells span path (by simp [Statement.emit, member])
    rw [Statement.emit, filled, test.emit_eq]
    exact (inner.after (closed_while (test.bare.lexes speech_common shared))
      (braces_condition shared (by simp))).imp (.text _)
  | .function span name parameters body, ⟨_, named, names, used⟩, common, tells => by
    have head : Closed False ("function " ++ name ++ "(" ++ commaSeparated parameters ++ ") ") _ :=
      closed_header (speech_common.name name ⟨named, trivial⟩) fun parameter member =>
        speech_common.name parameter ⟨names parameter member, trivial⟩
    rw [Statement.emit, filled]
    refine (Spells.after head (by simp [braces_cons, Grammar.braces_parameters]) ?_).imp (.text _)
    cases found : body.import? with
    | some imported =>
      cases import?_eq_some found
      have tells := tells imported.1 imported.2 (by
        simp [Statement.emit, Statement.isBlock, braced])
      exact tells.body span name parameters imported.1
    | none =>
      have inner := body.spells_splice used common fun span path member => tells span path (by
        rw [Statement.emit]
        split <;> simp [braced, member])
      exact Statement.spells_body inner found span name parameters

theorem Statement.spellsAll_splice : (statements : List Statement) →
    Bare.Statement.AllUse Lexeme.Written (Statement.bareAll statements) →
    Bare.Statement.CommonAll (Statement.bareAll statements) →
    (∀ span path, .site span path ∈ Statement.emitAll statements →
      Tells parts codes holds path) →
    Spells (filled codes (Statement.emitAll statements))
      (Statement.blocksAll (Statement.spliceAll parts statements))
      (Squared parts holds (Statement.loneAll statements) (Statement.emitAll statements))
  | [], _, _, _ => .of_closed closed_empty rfl .nil
  | statement :: rest, ⟨used, others⟩, ⟨common, commons⟩, tells => by
    have here : ∀ span path, .site span path ∈ statement.emit → Tells parts codes holds path :=
      fun span path member => tells span path (emit_subset_emitAll statement rest member)
    have first : Spells (filled codes statement.emit)
        (Statement.blocksAll (Statement.spread parts statement))
        (Squared parts holds (if statement.import?.isSome then [] else statement.lone)
          statement.emit) := by
      unfold Statement.spread
      cases found : statement.import? with
      | some imported =>
        cases import?_eq_some found
        have text : filled codes [.site imported.1 imported.2] = codes imported.2 :=
          String.append_empty
        rw [Statement.emit, text]
        exact (here imported.1 imported.2 List.mem_cons_self).spells.imp (.site · imported.1)
      | none => exact statement.spells_splice used common here
    rw [spliceAll_cons, Statement.blocksAll, Statement.bareAll_append,
      Bare.Statement.blockedAll_append, Bare.Statement.blocksAll_append]
    cases rest with
    | nil =>
      rw [Statement.loneAll, Statement.loneAll, List.append_nil]
      exact first
    | cons next rest =>
      have second := Statement.spellsAll_splice (next :: rest) others commons
        fun span path member => tells span path (emitAll_subset_cons statement _ member)
      rw [Statement.emitAll, filled_append, filled]
      exact (first.append (second.after closed_line rfl)).imp fun both =>
        both.1.append (both.2.text _)

end

end

/-- A text that is read as the program has as many braces as that has blocks, and each `else` where it
belongs. -/
theorem Spells.of_reads {claim : Prop} {program : Program}
    (spells : Spells code (Statement.blocksAll program.body) claim)
    (parsed : Program.ofSource code file = .ok again)
    (same : again.bare = Bare.Statement.blockedAll program.bare) :
    claim ∧ Bare.Statement.pairedAll (Bare.Statement.blockedAll program.bare) = true := by
  obtain ⟨phrase, closed, _, exactly⟩ := spells
  obtain ⟨stream, tokens, rfl⟩ := closed.ofSource_eq_ok
  obtain ⟨stream', tokens', success⟩ := Program.ofSource_eq_ok.mp parsed
  cases tokens.symm.trans tokens'
  have derived := parseProgram_derives success
  rw [same] at derived
  exact ⟨exactly derived.braces, derived.paired⟩

/-- The text of a program with each `else` where it belongs is read as that program. -/
theorem Program.reads_of_paired {program : Program}
    (used : Bare.Statement.AllUse Lexeme.Shared program.bare)
    (paired : Bare.Statement.pairedAll (Bare.Statement.blockedAll program.bare) = true)
    (file : Option String) :
    ∃ code again, program.emitStandalone none = .ok code ∧ ofSource code file = .ok again ∧
      again.bare = Bare.Statement.blockedAll program.bare := by
  have closed : Closed False _ _ :=
    Bare.Statement.closedAll speech_common not_shared_print not_shared_import program.bare used
  obtain ⟨stream, tokens, phrase⟩ := closed.ofSource_eq_ok
  have derived : Grammar.Derives (lexemes stream.tokens)
      (Bare.Statement.blockedAll program.bare) :=
    phrase ▸ Grammar.statements_phrase _ (Bare.Statement.allUse_blocked _ used) paired nofun
  obtain ⟨again, success, same⟩ := derived.parsed
  exact ⟨_, again, Statement.standaloneAll not_shared_import program.body used,
    ofSource_eq_ok.mpr ⟨stream, tokens, success⟩, same⟩

end ScriptKit
