import ScriptKit.Proofs.Program.RoundTrip

/-!
What a phrase shows of its trees: each `else` belongs to the innermost `if` that can take it, and
there are as many opening braces as blocks. A tree whose `if`s get the `else`s they should is derived
by its own phrase.
-/
namespace ScriptKit

namespace Bare

/-- Ends with an `if` without `else`, and would take an `else` that came next. -/
def Statement.dangles : Statement → Bool
  | .branch _ _ none => true
  | .branch _ _ (some alternate) => alternate.dangles
  | .loop _ body => body.dangles
  | .function _ _ body => body.dangles
  | _ => false

mutual

/-- Nothing before an `else` would take it. -/
def Statement.paired : Statement → Bool
  | .block body => Statement.pairedAll body
  | .branch _ consequent none => consequent.paired
  | .branch _ consequent (some alternate) =>
    consequent.paired && !consequent.dangles && alternate.paired
  | .loop _ body => body.paired
  | .function _ _ body => body.paired
  | _ => true

def Statement.pairedAll : List Statement → Bool
  | [] => true
  | statement :: rest => statement.paired && Statement.pairedAll rest

end

mutual

/-- How many blocks there are in a statement. -/
def Statement.blocks : Statement → Nat
  | .block body => Statement.blocksAll body + 1
  | .branch _ consequent none => consequent.blocks
  | .branch _ consequent (some alternate) => consequent.blocks + alternate.blocks
  | .loop _ body => body.blocks
  | .function _ _ body => body.blocks
  | _ => 0

def Statement.blocksAll : List Statement → Nat
  | [] => 0
  | statement :: rest => statement.blocks + Statement.blocksAll rest

end

end Bare

/-- How many braces are opened. -/
def braces (phrase : List Lexeme) : Nat := phrase.count (.symbol .leftBrace)

@[simp] theorem braces_nil : braces [] = 0 := rfl

@[simp] theorem braces_append (phrase more : List Lexeme) :
    braces (phrase ++ more) = braces phrase + braces more := List.count_append

@[simp] theorem braces_open (phrase : List Lexeme) :
    braces (.symbol .leftBrace :: phrase) = braces phrase + 1 := List.count_cons_self

theorem braces_cons (other : lexeme ≠ .symbol .leftBrace) :
    braces (lexeme :: phrase) = braces phrase := List.count_cons_of_ne other

namespace Grammar

mutual

/-- A statement is paired, and takes no `else` that comes next. -/
theorem Statement.paired : Statement next phrase tree → tree.paired = true ∧
    (next = some (.keyword .elseWord) → tree.dangles = false)
  | .declare _ | .assign _ | .call _ | .giveBack _ | .print _ | .importFile =>
    ⟨rfl, fun _ => rfl⟩
  | .block body => ⟨body.paired, fun _ => rfl⟩
  | .branch _ consequent closed => ⟨consequent.paired.1, fun same => absurd same closed⟩
  | .alternative _ consequent alternate => by
    obtain ⟨first, closed⟩ := consequent.paired
    obtain ⟨second, last⟩ := alternate.paired
    exact ⟨by simp [Bare.Statement.paired, first, closed rfl, second], last⟩
  | .loop _ body => body.paired
  | .function body => body.paired

theorem Statements.paired : Statements next phrase trees →
    Bare.Statement.pairedAll trees = true
  | .nil => rfl
  | .cons first others => by simp [Bare.Statement.pairedAll, first.paired.1, others.paired]

end

private theorem sign_ne_brace {level : Nat} (listed : levels[level]? = some operators)
    (member : (sign, infixed) ∈ operators) : Lexeme.symbol sign ≠ .symbol .leftBrace := by
  have signs : ∀ level ∈ levels, ∀ entry ∈ level, Lexeme.symbol entry.1 ≠ .symbol .leftBrace := by
    decide
  exact signs operators (List.mem_of_getElem? listed) _ member

mutual

theorem Level.braces : Level level phrase tree → braces phrase = 0
  | .primary inner => inner.braces
  | .operand inner => inner.braces
  | .join left listed member right => by
    rw [braces_append, braces_cons (sign_ne_brace listed member), left.braces, right.braces]

theorem Primary.braces : Primary phrase tree → braces phrase = 0
  | .number | .string | .boolean | .identifier => rfl
  | .call inner => by
    rw [braces_cons (by simp), braces_cons (by simp), braces_append, inner.braces]
    rfl
  | .parentheses inner => by
    rw [braces_cons (by simp), braces_append, inner.braces]
    rfl

theorem Arguments.braces : Arguments phrase trees → braces phrase = 0
  | .none => rfl
  | .some first others => by rw [braces_append, first.braces, others.braces]

theorem MoreArguments.braces : MoreArguments phrase trees → braces phrase = 0
  | .none => rfl
  | .some next others => by
    rw [braces_cons (by simp), braces_append, next.braces, others.braces]

end

theorem braces_parameters (names : List String) : braces (parameters names) = 0 := by
  refine List.count_eq_zero.mpr fun member => ?_
  rcases mem_parameters member with impossible | ⟨_, impossible⟩ <;> cases impossible

mutual

/-- Every block has its brace. -/
theorem Statement.braces : Statement next phrase tree → braces phrase = tree.blocks
  | .declare value => by
    simp [ScriptKit.braces_cons, value.braces, Bare.Statement.blocks]
  | .assign value => by
    simp [ScriptKit.braces_cons, value.braces, Bare.Statement.blocks]
  | .call inner => by
    simp [ScriptKit.braces_cons, inner.braces, Bare.Statement.blocks]
  | .giveBack argument => by
    simp [ScriptKit.braces_cons, argument.braces, Bare.Statement.blocks]
  | .print argument => by
    simp [ScriptKit.braces_cons, argument.braces, Bare.Statement.blocks]
  | .importFile => by
    simp [ScriptKit.braces_cons, Bare.Statement.blocks]
  | .block body => by
    simp [ScriptKit.braces_cons, body.braces, Bare.Statement.blocks]
  | .branch test consequent _ => by
    simp [ScriptKit.braces_cons, test.braces, consequent.braces, Bare.Statement.blocks]
  | .alternative test consequent alternate => by
    simp [ScriptKit.braces_cons, test.braces, consequent.braces, alternate.braces,
      Bare.Statement.blocks]
  | .loop test body => by
    simp [ScriptKit.braces_cons, test.braces, body.braces, Bare.Statement.blocks]
  | .function body => by
    simp [ScriptKit.braces_cons, braces_parameters, body.braces, Bare.Statement.blocks]

theorem Statements.braces : Statements next phrase trees →
    braces phrase = Bare.Statement.blocksAll trees
  | .nil => rfl
  | .cons first others => by
    rw [braces_append, first.braces, others.braces, Bare.Statement.blocksAll]

end

section
variable {holds : Lexeme → Prop}

mutual

/-- A paired statement is derived by its own phrase, unless it would take an `else` that comes next. -/
theorem statement_phrase : (tree : Bare.Statement) → tree.Uses holds → tree.paired = true →
    (next = some (.keyword .elseWord) → tree.dangles = false) → Statement next tree.phrase tree
  | .declare _ value, ⟨_, _, used⟩, _, _ => .declare (primary_phrase value used).expression
  | .assign _ value, ⟨_, used⟩, _, _ => .assign (primary_phrase value used).expression
  | .block body, used, paired, _ => .block (statements_phrase body used paired (by simp))
  | .branch test consequent none, ⟨_, condition, inner⟩, paired, ends => by
    have other : next ≠ some (.keyword .elseWord) := fun same => Bool.noConfusion (ends same)
    exact .branch (primary_phrase test condition).expression
      (statement_phrase consequent inner paired fun same => absurd same other) other
  | .branch test consequent (some alternate), ⟨_, condition, inner, _, outer⟩, paired, ends => by
    simp only [Bare.Statement.paired, Bool.and_eq_true, Bool.not_eq_true'] at paired
    obtain ⟨⟨first, closed⟩, second⟩ := paired
    exact .alternative (primary_phrase test condition).expression
      (statement_phrase consequent inner first fun _ => closed)
      (statement_phrase alternate outer second ends)
  | .loop test body, ⟨_, condition, inner⟩, paired, ends =>
    .loop (primary_phrase test condition).expression (statement_phrase body inner paired ends)
  | .function _ _ body, ⟨_, _, _, inner⟩, paired, ends =>
    .function (statement_phrase body inner paired ends)
  | .giveBack argument, ⟨_, used⟩, _, _ => .giveBack (primary_phrase argument used).expression
  | .print argument, ⟨_, used⟩, _, _ => .print (primary_phrase argument used).expression
  | .importFile _, _, _, _ => .importFile
  | .call _ arguments, ⟨_, all⟩, _, _ => .call (arguments_phrase arguments all)

theorem statements_phrase : (trees : List Bare.Statement) → Bare.Statement.AllUse holds trees →
    Bare.Statement.pairedAll trees = true → next ≠ some (.keyword .elseWord) →
    Statements next (Bare.Statement.phraseAll trees) trees
  | [], _, _, _ => .nil
  | tree :: trees, ⟨used, others⟩, paired, other => by
    simp only [Bare.Statement.pairedAll, Bool.and_eq_true] at paired
    refine .cons (statement_phrase tree used paired.1 fun starts => ?_)
      (statements_phrase trees others paired.2 other)
    -- What comes next after the first is another statement, which is no `else`, or what follows all.
    cases trees with
    | nil => exact absurd starts other
    | cons next' trees =>
      obtain ⟨lexeme, rest, shape, apart⟩ := phrase_starts next'
      rw [Bare.Statement.phraseAll, shape] at starts
      exact absurd (Option.some.inj starts) apart

end

end

end Grammar
end ScriptKit
