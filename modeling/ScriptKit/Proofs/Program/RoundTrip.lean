import ScriptKit.Proofs.Program.Recognition
import ScriptKit.Proofs.Program.Speech

/-!
Emitted text is source text again, for programs that neither print nor import and whose literals are
written the same in both languages. Its tree is the tree of the program with every body of a function
made a block, and emission does not tell the two apart.
-/
namespace ScriptKit

namespace Bare

def Statement.isBlock : Statement → Bool
  | .block _ => true
  | _ => false

/-- Statements between braces on lines of their own. -/
def bracedCode (inner : String) : String := "\x7b\n" ++ inner ++ "\n\x7d"

mutual

/-- The emitted text of a statement, without the places of imports. -/
def Statement.code : Statement → String
  | .declare name value => "let " ++ name ++ " = " ++ value.code ++ ";"
  | .assign name value => name ++ " = " ++ value.code ++ ";"
  | .block body => bracedCode (Statement.codeAll body)
  | .branch test consequent none => "if (" ++ test.code ++ ") " ++ consequent.code
  | .branch test consequent (some alternate) =>
    "if (" ++ test.code ++ ") " ++ consequent.code ++ " else " ++ alternate.code
  | .loop test body => "while (" ++ test.code ++ ") " ++ body.code
  | .function name parameters body =>
    "function " ++ name ++ "(" ++ commaSeparated parameters ++ ") " ++
      (if body.isBlock then body.code else bracedCode body.code)
  | .giveBack argument => "return " ++ argument.code ++ ";"
  | .print argument => "console.log(" ++ argument.code ++ ");"
  | .importFile _ => ""
  | .call callee arguments => (Expression.call callee arguments).code ++ ";"

def Statement.codeAll : List Statement → String
  | [] => ""
  | [statement] => statement.code
  | statement :: next :: rest => statement.code ++ "\n" ++ Statement.codeAll (next :: rest)

end

mutual

/-- The statement with every body of a function made a block. -/
def Statement.blocked : Statement → Statement
  | .block body => .block (Statement.blockedAll body)
  | .branch test consequent none => .branch test consequent.blocked none
  | .branch test consequent (some alternate) =>
    .branch test consequent.blocked (some alternate.blocked)
  | .loop test body => .loop test body.blocked
  | .function name parameters body =>
    .function name parameters (if body.isBlock then body.blocked else .block [body.blocked])
  | other => other

def Statement.blockedAll : List Statement → List Statement
  | [] => []
  | statement :: rest => statement.blocked :: Statement.blockedAll rest

end

mutual

def Statement.phrase : Statement → List Lexeme
  | .declare name value =>
    .keyword .letWord :: .identifier name :: .symbol .assign ::
      (value.phrase Literal.phrase ++ [.symbol .semicolon])
  | .assign name value =>
    .identifier name :: .symbol .assign :: (value.phrase Literal.phrase ++ [.symbol .semicolon])
  | .block body => .symbol .leftBrace :: (Statement.phraseAll body ++ [.symbol .rightBrace])
  | .branch test consequent none =>
    .keyword .ifWord :: .symbol .leftParen ::
      (test.phrase Literal.phrase ++ .symbol .rightParen :: consequent.phrase)
  | .branch test consequent (some alternate) =>
    .keyword .ifWord :: .symbol .leftParen ::
      (test.phrase Literal.phrase ++ .symbol .rightParen ::
        (consequent.phrase ++ .keyword .elseWord :: alternate.phrase))
  | .loop test body =>
    .keyword .whileWord :: .symbol .leftParen ::
      (test.phrase Literal.phrase ++ .symbol .rightParen :: body.phrase)
  | .function name parameters body =>
    .keyword .functionWord :: .identifier name :: .symbol .leftParen ::
      (Grammar.parameters parameters ++ .symbol .rightParen :: body.phrase)
  | .giveBack argument =>
    .keyword .returnWord :: (argument.phrase Literal.phrase ++ [.symbol .semicolon])
  | .print argument =>
    .keyword .printWord :: .symbol .leftParen ::
      (argument.phrase Literal.phrase ++ [.symbol .rightParen, .symbol .semicolon])
  | .importFile path =>
    [.keyword .importWord, .symbol .leftParen, .string path, .symbol .rightParen,
      .symbol .semicolon]
  | .call callee arguments =>
    .identifier callee :: .symbol .leftParen ::
      (commas (Expression.phraseAll Literal.phrase arguments) ++
        [.symbol .rightParen, .symbol .semicolon])

def Statement.phraseAll : List Statement → List Lexeme
  | [] => []
  | statement :: rest => statement.phrase ++ Statement.phraseAll rest

end

end Bare

namespace Grammar

theorem Level.lift (inner : Level level phrase tree) (below : level ≤ level') :
    Level level' phrase tree := by
  induction below with
  | refl => exact inner
  | step _ ih => exact .operand ih

theorem Primary.expression (inner : Primary phrase tree) : Expression phrase tree :=
  (Level.primary inner).lift (Nat.zero_le _)

private theorem exists_level (known : Infix.sign? infixed = some sign) :
    ∃ (level : Nat) (operators : _), levels[level]? = some operators ∧ (sign, infixed) ∈ operators := by
  have listed : ∃ operators ∈ levels, (sign, infixed) ∈ operators := by
    cases infixed with
    | binary operator => cases operator <;> cases known <;> decide
    | logical operator => cases operator <;> cases known <;> decide
  obtain ⟨operators, member, entry⟩ := listed
  obtain ⟨level, found⟩ := List.mem_iff_getElem?.mp member
  exact ⟨level, operators, found, entry⟩

/-- An operator in parentheses between two primary expressions is one again, at any level. -/
theorem Primary.infixed {infixed : Infix} (used : infixed.Uses holds) (left : Primary first tree)
    (right : Primary second other) :
    Primary (.symbol .leftParen :: (first ++ (infixed.phrase ++ (second ++ [.symbol .rightParen]))))
      (infixed.join tree other) := by
  obtain ⟨sign, known, _⟩ := used
  obtain ⟨level, operators, listed, member⟩ := exists_level known
  have within : level + 1 ≤ levels.length := (List.getElem?_eq_some_iff.mp listed).1
  have joined : Level (level + 1) (first ++ .symbol sign :: second) (infixed.join tree other) :=
    .join ((Level.primary left).lift (Nat.zero_le _)) listed member
      ((Level.primary right).lift (Nat.zero_le _))
  have closed := Primary.parentheses (joined.lift within)
  rw [List.append_assoc] at closed
  simpa [Infix.phrase, known] using closed

mutual

/-- The phrase of an expression derives it. -/
theorem primary_phrase {holds : Lexeme → Prop} : (tree : Bare.Expression) → tree.Uses holds →
    Primary (tree.phrase Literal.phrase) tree
  | .literal (.boolean _), _ => .boolean
  | .literal (.number _), _ => .number
  | .literal (.string _), _ => .string
  | .identifier _, _ => .identifier
  | .binary _ left right, ⟨used, first, second⟩ =>
    .infixed used (primary_phrase left first) (primary_phrase right second)
  | .logical _ left right, ⟨used, first, second⟩ =>
    .infixed used (primary_phrase left first) (primary_phrase right second)
  | .call _ arguments, ⟨_, all⟩ => .call (arguments_phrase arguments all)

theorem arguments_phrase {holds : Lexeme → Prop} : (trees : List Bare.Expression) →
    Bare.Expression.AllUse holds trees →
    Arguments (commas (Bare.Expression.phraseAll Literal.phrase trees)) trees
  | [], _ => .none
  | tree :: trees, ⟨first, others⟩ =>
    .some (primary_phrase tree first).expression (moreArguments_phrase trees others)

theorem moreArguments_phrase {holds : Lexeme → Prop} : (trees : List Bare.Expression) →
    Bare.Expression.AllUse holds trees →
    MoreArguments ((Bare.Expression.phraseAll Literal.phrase trees).flatMap (.symbol .comma :: ·))
      trees
  | [], _ => .none
  | tree :: trees, ⟨first, others⟩ => by
    have more := moreArguments_phrase trees others
    exact .some (primary_phrase tree first).expression more

end

/-- Every expression is derived by its own phrase. -/
theorem Level.canonical (inner : Level level phrase tree) :
    Expression (tree.phrase Literal.phrase) tree := by
  have all : All (fun _ => True) phrase := fun _ _ => trivial
  exact (primary_phrase tree (inner.uses all)).expression

theorem Arguments.canonical (inner : Arguments phrase trees) :
    Arguments (commas (Bare.Expression.phraseAll Literal.phrase trees)) trees := by
  have all : All (fun _ => True) phrase := fun _ _ => trivial
  exact arguments_phrase trees (inner.uses all)

/-- No statement starts with `else`. -/
theorem phrase_starts (tree : Bare.Statement) :
    ∃ lexeme rest, tree.phrase = lexeme :: rest ∧ lexeme ≠ .keyword .elseWord := by
  cases tree with
  | branch test consequent alternate => cases alternate <;> exact ⟨_, _, rfl, by decide⟩
  | _ => exact ⟨_, _, rfl, nofun⟩

mutual

/-- A statement with blocks for the bodies of functions is derived by its own phrase. -/
theorem Statement.canonical : Statement next phrase tree →
    (next' = some (.keyword .elseWord) → next = some (.keyword .elseWord)) →
    Statement next' tree.blocked.phrase tree.blocked
  | .declare value, _ => .declare value.canonical
  | .assign value, _ => .assign value.canonical
  | .call inner, _ => .call inner.canonical
  | .giveBack argument, _ => .giveBack argument.canonical
  | .print argument, _ => .print argument.canonical
  | .importFile, _ => .importFile
  | .block body, _ => .block (body.canonical id)
  | .branch test consequent closed, weaker =>
    .branch test.canonical (consequent.canonical weaker) fun same => closed (weaker same)
  | .alternative test consequent alternate, weaker =>
    .alternative test.canonical (consequent.canonical id) (alternate.canonical weaker)
  | .loop test body, weaker => .loop test.canonical (body.canonical weaker)
  | .function body, weaker => by
    rw [Bare.Statement.blocked]
    split
    · exact .function (body.canonical weaker)
    · have inner : Statement (some (.symbol .rightBrace)) _ _ := body.canonical nofun
      exact .function (.block (.cons inner .nil))

theorem Statements.canonical : Statements next phrase trees →
    (next' = some (.keyword .elseWord) → next = some (.keyword .elseWord)) →
    Statements next' (Bare.Statement.phraseAll (Bare.Statement.blockedAll trees))
      (Bare.Statement.blockedAll trees)
  | .nil, _ => .nil
  | @Statements.cons _ _ _ _ trees first others, weaker => by
    -- What follows the first statement is the next one, which is no `else`, or what follows them all.
    refine .cons (first.canonical fun starts => ?_) (others.canonical weaker)
    cases trees with
    | nil =>
      cases others
      exact weaker starts
    | cons tree trees =>
      obtain ⟨lexeme, rest, shape, other⟩ := phrase_starts tree.blocked
      rw [Bare.Statement.blockedAll, Bare.Statement.phraseAll, shape] at starts
      exact absurd (Option.some.inj starts) other

end

end Grammar

theorem closed_braced {reader : Reader} (inner : reader.Closes code phrase) :
    reader.Closes (Bare.bracedCode code)
      (.symbol .leftBrace :: (phrase ++ [.symbol .rightBrace])) := by
  rw [Bare.bracedCode]
  exact (closed_braceOpen.append inner).append closed_braceClose

private theorem closed_print {reader : Reader}
    (word : reader.Reads "console.log" [.keyword .printWord])
    (argument : reader.Reads code phrase) :
    reader.Closes ("console.log(" ++ code ++ ");")
      (.keyword .printWord :: .symbol .leftParen ::
        (phrase ++ [.symbol .rightParen, .symbol .semicolon])) := by
  have opened : reader.Closes "console.log(" [.keyword .printWord, .symbol .leftParen] :=
    (word.close (by decide) closed_parenOpen).of_eq rfl
  have ended : reader.Closes ");" [.symbol .rightParen, .symbol .semicolon] :=
    (closed_parenClose.append closed_semicolon).of_eq rfl
  have closed := (opened.before argument).close (by decide) ended
  simpa using closed

section
variable {reader : Reader} {holds : Lexeme → Prop}

mutual

/-- The emitted text of a statement that does not import is read as the phrase of the statement with
blocks for the bodies of functions, if what prints is read as such. -/
theorem Bare.Statement.closes (speech : Speech reader holds Literal.phrase)
    (prints : holds (.keyword .printWord) → reader.Reads "console.log" [.keyword .printWord])
    (alone : ¬ holds (.keyword .importWord)) :
    (tree : Bare.Statement) → tree.Uses holds → reader.Closes tree.code tree.blocked.phrase
  | .declare name value, ⟨_, named, used⟩ =>
    closed_declare (speech.name name named) (value.lexes speech used)
  | .assign name value, ⟨named, used⟩ =>
    closed_assign (speech.name name named) (value.lexes speech used)
  | .block body, used => closed_braced (Bare.Statement.closesAll speech prints alone body used)
  | .branch test consequent none, ⟨_, condition, inner⟩ => by
    have head := closed_if (test.lexes speech condition)
    have closed := head.append (consequent.closes speech prints alone inner)
    simpa [Bare.Statement.code, Bare.Statement.blocked, Bare.Statement.phrase] using closed
  | .branch test consequent (some alternate), ⟨_, condition, inner, _, other⟩ => by
    have head := closed_if (test.lexes speech condition)
    have first := (head.append (consequent.closes speech prints alone inner)).append closed_else
    have closed := first.append (alternate.closes speech prints alone other)
    simpa [Bare.Statement.code, Bare.Statement.blocked, Bare.Statement.phrase] using closed
  | .loop test body, ⟨_, condition, inner⟩ => by
    have head := closed_while (test.lexes speech condition)
    have closed := head.append (body.closes speech prints alone inner)
    simpa [Bare.Statement.code, Bare.Statement.blocked, Bare.Statement.phrase] using closed
  | .function name parameters body, ⟨_, named, all, used⟩ => by
    have head := closed_header (speech.name name named) fun parameter member =>
      speech.name parameter (all parameter member)
    have inner := body.closes speech prints alone used
    rw [Bare.Statement.code, Bare.Statement.blocked]
    split
    · have closed := head.append inner
      simpa [Bare.Statement.phrase] using closed
    · have closed := head.append (closed_braced inner)
      simpa [Bare.Statement.phrase, Bare.Statement.phraseAll] using closed
  | .giveBack argument, ⟨_, used⟩ => closed_return (argument.lexes speech used)
  | .print argument, ⟨printed, used⟩ =>
    closed_print (prints printed) (argument.lexes speech used)
  | .importFile _, ⟨imported, _⟩ => absurd imported alone
  | .call callee arguments, ⟨named, all⟩ => by
    have call := lexes_call (speech.name callee named) (Bare.Expression.lexesAll speech arguments all)
    have closed := call.append closed_semicolon
    rw [Bare.Expression.phrase, List.cons_append, List.cons_append, List.append_assoc] at closed
    exact closed

theorem Bare.Statement.closesAll (speech : Speech reader holds Literal.phrase)
    (prints : holds (.keyword .printWord) → reader.Reads "console.log" [.keyword .printWord])
    (alone : ¬ holds (.keyword .importWord)) :
    (trees : List Bare.Statement) → Bare.Statement.AllUse holds trees →
    reader.Closes (Bare.Statement.codeAll trees)
      (Bare.Statement.phraseAll (Bare.Statement.blockedAll trees))
  | [], _ => closed_empty
  | [tree], ⟨used, _⟩ => by
    have closed := tree.closes speech prints alone used
    simpa [Bare.Statement.codeAll, Bare.Statement.blockedAll, Bare.Statement.phraseAll] using closed
  | tree :: next :: trees, ⟨used, others⟩ => by
    have first := (tree.closes speech prints alone used).append closed_line
    have closed := first.append (Bare.Statement.closesAll speech prints alone (next :: trees) others)
    rw [List.append_nil] at closed
    exact closed

end

theorem Bare.Statement.closed (speech : Speech reader holds Literal.phrase)
    (silent : ¬ holds (.keyword .printWord)) (alone : ¬ holds (.keyword .importWord))
    (tree : Bare.Statement) (used : tree.Uses holds) :
    reader.Closes tree.code tree.blocked.phrase :=
  tree.closes speech (fun printed => absurd printed silent) alone used

theorem Bare.Statement.closedAll (speech : Speech reader holds Literal.phrase)
    (silent : ¬ holds (.keyword .printWord)) (alone : ¬ holds (.keyword .importWord))
    (trees : List Bare.Statement) (used : Bare.Statement.AllUse holds trees) :
    reader.Closes (Bare.Statement.codeAll trees)
      (Bare.Statement.phraseAll (Bare.Statement.blockedAll trees)) :=
  Bare.Statement.closesAll speech (fun printed => absurd printed silent) alone trees used

end

section
variable {file : Option String} {fragments more : List Fragment} {code following : String}

private theorem standaloneText_text (code : String) :
    standaloneText file [.text code] = .ok code := by
  simp [standaloneText, bind, Except.bind, pure, Except.pure]

private theorem standaloneText_append (first : standaloneText file fragments = .ok code)
    (second : standaloneText file more = .ok following) :
    standaloneText file (fragments ++ more) = .ok (code ++ following) := by
  induction fragments generalizing code with
  | nil =>
    obtain rfl := Except.ok.inj first
    simpa using second
  | cons fragment fragments ih =>
    cases fragment with
    | site span path => cases first
    | text front =>
      obtain ⟨back, rest, joined⟩ := bind_eq_ok.mp first
      obtain rfl := Except.ok.inj joined
      rw [List.cons_append, standaloneText, ih rest]
      simp [bind, Except.bind, pure, Except.pure, String.append_assoc]

private theorem standaloneText_cons (code : String)
    (second : standaloneText file more = .ok following) :
    standaloneText file (.text code :: more) = .ok (code ++ following) :=
  standaloneText_append (standaloneText_text code) second

private theorem standaloneText_braced (inner : standaloneText file fragments = .ok code) :
    standaloneText file (braced fragments) = .ok (Bare.bracedCode code) := by
  have closed := standaloneText_cons "\x7b\n"
    (standaloneText_append inner (standaloneText_text "\n\x7d"))
  rw [← String.append_assoc] at closed
  exact closed

end

theorem Statement.isBlock_bare (statement : Statement) :
    statement.bare.isBlock = statement.isBlock := by
  cases statement with
  | branch span test consequent alternate => cases alternate <;> rfl
  | _ => rfl

section
variable {holds : Lexeme → Prop} {file : Option String}

mutual

/-- A statement without imports is emitted as the text of its tree. -/
theorem Statement.standalone (alone : ¬ holds (.keyword .importWord)) :
    (statement : Statement) → statement.bare.Uses holds →
    standaloneText file statement.emit = .ok statement.bare.code
  | .declare _ name value, _ => by
    rw [Statement.emit, standaloneText_text, value.emit_eq]
    rfl
  | .assign _ name value, _ => by
    rw [Statement.emit, standaloneText_text, value.emit_eq]
    rfl
  | .block _ body, used => standaloneText_braced (Statement.standaloneAll alone body used)
  | .branch _ test consequent none, ⟨_, _, inner⟩ => by
    rw [Statement.emit, standaloneText_cons _ (consequent.standalone alone inner), test.emit_eq]
    rfl
  | .branch _ test consequent (some alternate), ⟨_, _, inner, _, other⟩ => by
    have rest := standaloneText_append (consequent.standalone alone inner)
      (standaloneText_cons " else " (alternate.standalone alone other))
    rw [Statement.emit, standaloneText_cons _ rest, test.emit_eq]
    simp [Statement.bare, Bare.Statement.code, String.append_assoc]
  | .loop _ test body, ⟨_, _, inner⟩ => by
    rw [Statement.emit, standaloneText_cons _ (body.standalone alone inner), test.emit_eq]
    rfl
  | .function _ name parameters body, ⟨_, _, _, used⟩ => by
    have inner := body.standalone alone used
    rw [Statement.emit, Statement.bare, Bare.Statement.code, body.isBlock_bare]
    split
    · exact standaloneText_cons _ inner
    · exact standaloneText_cons _ (standaloneText_braced inner)
  | .giveBack _ argument, _ => by
    rw [Statement.emit, standaloneText_text, argument.emit_eq]
    rfl
  | .print _ argument, _ => by
    rw [Statement.emit, standaloneText_text, argument.emit_eq]
    rfl
  | .importFile _ _, ⟨imported, _⟩ => absurd imported alone
  | .call span callee arguments, _ => by
    rw [Statement.emit, standaloneText_text, Expression.emit_eq]
    rfl

theorem Statement.standaloneAll (alone : ¬ holds (.keyword .importWord)) :
    (statements : List Statement) → Bare.Statement.AllUse holds (Statement.bareAll statements) →
    standaloneText file (Statement.emitAll statements) =
      .ok (Bare.Statement.codeAll (Statement.bareAll statements))
  | [], _ => rfl
  | [statement], ⟨used, _⟩ => statement.standalone alone used
  | statement :: next :: rest, ⟨used, others⟩ => by
    have following := Statement.standaloneAll alone (next :: rest) others
    have joined := standaloneText_append (statement.standalone alone used)
      (standaloneText_cons "\n" following)
    rw [← String.append_assoc] at joined
    exact joined

end

end

namespace Bare

theorem Statement.isBlock_blocked (tree : Statement) : tree.blocked.isBlock = tree.isBlock := by
  cases tree with
  | branch test consequent alternate => cases alternate <;> rfl
  | _ => rfl

mutual

/-- Emission does not tell a body that is made a block from one that is not. -/
theorem Statement.code_blocked : (tree : Statement) → tree.blocked.code = tree.code
  | .block body => by
    rw [Statement.blocked, Statement.code, Statement.codeAll_blocked body]
    rfl
  | .branch test consequent none => by
    rw [Statement.blocked, Statement.code, consequent.code_blocked]
    rfl
  | .branch test consequent (some alternate) => by
    rw [Statement.blocked, Statement.code, consequent.code_blocked, alternate.code_blocked]
    rfl
  | .loop test body => by
    rw [Statement.blocked, Statement.code, body.code_blocked]
    rfl
  | .function name parameters body => by
    have inner := body.code_blocked
    rw [Statement.blocked, Statement.code, Statement.code]
    split
    · rename_i block
      rw [body.isBlock_blocked, if_pos block, inner]
    · have block : (Statement.block [body.blocked]).isBlock = true := rfl
      rw [if_pos block, Statement.code, Statement.codeAll, inner]
  | .declare _ _ | .assign _ _ | .giveBack _ | .print _ | .importFile _ | .call _ _ => rfl

theorem Statement.codeAll_blocked : (trees : List Statement) →
    Statement.codeAll (Statement.blockedAll trees) = Statement.codeAll trees
  | [] => rfl
  | [tree] => tree.code_blocked
  | tree :: next :: trees => by
    have others := Statement.codeAll_blocked (next :: trees)
    rw [Statement.codeAll, ← others, ← tree.code_blocked]
    rfl

end

end Bare

namespace Bare
variable {holds : Lexeme → Prop}

mutual

theorem Statement.uses_blocked : (tree : Statement) → tree.Uses holds → tree.blocked.Uses holds
  | .block body, used => Statement.allUse_blocked body used
  | .branch _ consequent none, ⟨word, condition, inner⟩ =>
    ⟨word, condition, consequent.uses_blocked inner⟩
  | .branch _ consequent (some alternate), ⟨word, condition, inner, other, outer⟩ =>
    ⟨word, condition, consequent.uses_blocked inner, other, alternate.uses_blocked outer⟩
  | .loop _ body, ⟨word, condition, inner⟩ => ⟨word, condition, body.uses_blocked inner⟩
  | .function _ _ body, ⟨word, named, names, inner⟩ => by
    have blocked := body.uses_blocked inner
    refine ⟨word, named, names, ?_⟩
    split
    · exact blocked
    · exact ⟨blocked, trivial⟩
  | .declare _ _, used | .assign _ _, used | .giveBack _, used | .print _, used
  | .importFile _, used | .call _ _, used => used

theorem Statement.allUse_blocked : (trees : List Statement) → Statement.AllUse holds trees →
    Statement.AllUse holds (Statement.blockedAll trees)
  | [], _ => trivial
  | tree :: trees, ⟨used, others⟩ => ⟨tree.uses_blocked used, Statement.allUse_blocked trees others⟩

end

end Bare

/-- A closed text is source text of its phrase. -/
theorem Closed.ofSource_eq_ok (closed : Closed False code phrase) :
    ∃ stream, TokenStream.ofSource code = .ok stream ∧ lexemes stream.tokens = phrase := by
  obtain ⟨position, tokens, same, reads⟩ := (closed [] trivial .start).resolve_right And.left
  rw [List.append_nil, tokensFrom_end position .nil] at reads
  exact ⟨_, reads, (congrArg lexemes (List.append_nil tokens)).trans same⟩

/-- The emitted text of a program of common statements and literals is a program again, the same but
for the bodies of functions, which have become blocks; and emission leaves it as it is. -/
theorem Program.ofSource_emitStandalone (parsed : ofSource source file = .ok program)
    (common : Bare.Statement.AllUse Lexeme.Common program.bare) :
    ∃ code again, program.emitStandalone file = .ok code ∧ ofSource code file = .ok again ∧
      again.bare = Bare.Statement.blockedAll program.bare ∧ again.emitStandalone file = .ok code := by
  obtain ⟨stream, tokens, success⟩ := ofSource_eq_ok.mp parsed
  have derived := parseProgram_derives success
  have used := Bare.Statement.allUse_and _ (derived.uses (tokensFrom_written tokens)) common
  have alone : ¬ ((Lexeme.keyword .importWord).Written ∧ (Lexeme.keyword .importWord).Common) :=
    fun both => both.2.2 rfl
  have silent : ¬ ((Lexeme.keyword .printWord).Written ∧ (Lexeme.keyword .printWord).Common) :=
    fun both => both.2.1 rfl
  have closed : Closed False _ _ :=
    Bare.Statement.closedAll speech_common silent alone program.bare used
  obtain ⟨stream', tokens', phrase⟩ := closed.ofSource_eq_ok
  have canonical : Grammar.Derives (lexemes stream'.tokens)
      (Bare.Statement.blockedAll program.bare) := phrase ▸ derived.canonical id
  obtain ⟨again, success', blocked⟩ := canonical.parsed
  refine ⟨_, again, Statement.standaloneAll alone program.body used,
    ofSource_eq_ok.mpr ⟨stream', tokens', success'⟩, blocked, ?_⟩
  have used' := Bare.Statement.allUse_blocked program.bare used
  rw [← blocked] at used'
  have emitted : again.emitStandalone file = _ := Statement.standaloneAll alone again.body used'
  rw [← Program.bare, blocked, Bare.Statement.codeAll_blocked] at emitted
  exact emitted

theorem Program.ofSource_emitStandalone_function :
    ∃ program, ofSource "function f(a) return 0.5;" none = .ok program ∧
      Bare.Statement.AllUse Lexeme.Common program.bare ∧
      ∃ code again, program.emitStandalone none = .ok code ∧ ofSource code none = .ok again ∧
        again.bare = Bare.Statement.blockedAll program.bare ∧
        again.emitStandalone none = .ok code := by
  let half : Literal := .number (.double (Decimal.toDouble false ⟨5, -1⟩))
  have read : (TokenStream.ofSource "function f(a) return 0.5;").map
      (fun stream => lexemes stream.tokens) = .ok
        [.keyword .functionWord, .identifier "f", .symbol .leftParen, .identifier "a",
          .symbol .rightParen, .keyword .returnWord, half.lexeme, .symbol .semicolon] := by
    decide +kernel
  obtain ⟨stream, tokens, same⟩ := map_eq_ok read
  have body : Grammar.Statement none [.keyword .returnWord, half.lexeme, .symbol .semicolon]
      (.giveBack (.literal half)) := .giveBack (Grammar.Primary.expression .number)
  have derived : Grammar.Derives (lexemes stream.tokens)
      [.function "f" ["a"] (.giveBack (.literal half))] := by
    rw [← same]
    exact @Grammar.Statements.cons _ _ none [] []
      (@Grammar.Statement.function _ _ _ "f" ["a"] body) .nil
  obtain ⟨program, success, bare⟩ := derived.parsed
  have common : Bare.Statement.AllUse Lexeme.Common program.bare := by
    have plain : (Decimal.toDouble false ⟨5, -1⟩).isFinite = true ∧ 'e' ∉ half.emit.toList := by
      decide +kernel
    rw [bare]
    exact ⟨⟨⟨nofun, nofun⟩, trivial, fun _ _ => trivial, ⟨nofun, nofun⟩, plain⟩, trivial⟩
  have parsed : ofSource "function f(a) return 0.5;" none = .ok program :=
    ofSource_eq_ok.mpr ⟨stream, tokens, success⟩
  exact ⟨program, parsed, common, ofSource_emitStandalone parsed common⟩

end ScriptKit
