import ScriptKit.Proofs.Program.Accepted

/-!
What the grammar derives is accepted, and so the parser recognizes the grammar: a stream is read as a
tree exactly when the tree is derivable from its lexemes, and a text has at most one.

A binary level is left recursive in the grammar and a loop in the parser. The two meet in the point
where the loop has read a phrase and has not yet seen what follows (`Reaches`).
-/
namespace ScriptKit

/-- A reading succeeds with a tree and stops before `rest`. -/
def Reads (reading : Except Rejection (Parsed α bound)) (bare : α → β) (tree : β)
    (rest : List Lexeme) : Prop :=
  ∃ parsed, reading = .ok parsed ∧ bare parsed.value = tree ∧ lexemes parsed.rest = rest

theorem Reads.bind {reading : Except Rejection (Parsed α bound)}
    {next : Parsed α bound → Except Rejection (Parsed γ bound')} {bare' : γ → δ}
    (first : Reads reading bare tree middle)
    (continued : ∀ parsed, bare parsed.value = tree → lexemes parsed.rest = middle →
      Reads (next parsed) bare' tree' rest) :
    Reads (reading >>= next) bare' tree' rest := by
  obtain ⟨parsed, success, same, covered⟩ := first
  rw [success]
  exact continued parsed same covered

private theorem expectSymbol_reads (covered : lexemes tokens = .symbol symbol :: rest) :
    Reads (expectSymbol symbol tokens) id () rest := by
  obtain ⟨position, others, rfl, tail⟩ := lexemes_eq_cons.mp covered
  exact ⟨⟨(), position, others, by simp⟩, by simp [expectSymbol], rfl, tail⟩

private theorem expectIdentifier_reads (covered : lexemes tokens = .identifier name :: rest) :
    Reads (expectIdentifier tokens) id name rest := by
  obtain ⟨position, others, rfl, tail⟩ := lexemes_eq_cons.mp covered
  exact ⟨⟨name, position, others, by simp⟩, rfl, rfl, tail⟩

private theorem expectString_reads (covered : lexemes tokens = .string text :: rest) :
    Reads (expectString tokens) id text rest := by
  obtain ⟨position, others, rfl, tail⟩ := lexemes_eq_cons.mp covered
  exact ⟨⟨text, position, others, by simp⟩, rfl, rfl, tail⟩

/-- What follows neither goes on with an operator of the first tiers nor makes a name a call. -/
def Stops (tiers : Nat) (rest : List Lexeme) : Prop :=
  ∀ lexeme ∈ rest.head?, lexeme ≠ .symbol .leftParen ∧ ∀ tier < tiers, infixOf? tier lexeme = none

theorem Stops.tighter (stops : Stops (tier + 1) rest) : Stops tier rest := by
  intro lexeme following
  obtain ⟨noCall, noOperator⟩ := stops lexeme following
  exact ⟨noCall, fun other below => noOperator other (Nat.lt_succ_of_lt below)⟩

private theorem stops_closing (closing : symbol ∈ [Symbol.rightParen, .comma, .semicolon]) :
    Stops tiers (.symbol symbol :: rest) := by
  rintro _ ⟨⟩
  simp only [List.mem_cons, List.not_mem_nil, or_false] at closing
  rcases closing with rfl | rfl | rfl <;> exact ⟨nofun, fun _ _ => rfl⟩

private theorem infixOf?_tier (found : infixOf? tier lexeme = some infixed)
    (found' : infixOf? tier' lexeme = some infixed') : tier = tier' := by
  unfold infixOf? at found found'
  split at found <;> grind

private theorem stops_operator (found : infixOf? tier (.symbol sign) = some infixed) :
    Stops tier (.symbol sign :: rest) := by
  rintro _ ⟨⟩
  refine ⟨?_, ?_⟩
  · rintro ⟨⟩
    cases found
  · intro other below
    rw [Option.eq_none_iff_forall_ne_some]
    intro infixed' found'
    exact absurd (infixOf?_tier found' found) (Nat.ne_of_lt below)

/-- The loop of a level has read a phrase of its tree, up to `rest`: what the loop gives from here is
what the level gives. A level without operators is read at once. -/
def Reaches (tiers : Nat) (tokens : List Token) (tree : Bare.Expression) (rest : List Lexeme) :
    Prop :=
  match tiers with
  | 0 => Stops 0 rest → Reads (parseTiers 0 tokens) Expression.bare tree rest
  | tier + 1 => Stops tier rest → ∃ start left last remaining,
      left.bare = tree ∧ lexemes remaining = rest ∧
      ∀ chain, parseChain tier start left last remaining = .ok chain →
        ∃ parsed, parseTiers (tier + 1) tokens = .ok parsed ∧ parsed.value = chain.value ∧
          parsed.rest = chain.rest

private theorem parseChain_stops (stops : Stops (tier + 1) (lexemes tokens)) :
    ∃ chain, parseChain tier start left last tokens = .ok chain ∧ chain.value = left ∧
      chain.rest = tokens := by
  cases tokens with
  | nil => exact ⟨_, by rw [parseChain], rfl, rfl⟩
  | cons token rest =>
    obtain ⟨_, noOperator⟩ := stops token.lexeme rfl
    refine ⟨⟨left, last, token :: rest, by simp⟩, ?_, rfl, rfl⟩
    rw [parseChain, noOperator tier (Nat.lt_succ_self tier)]

theorem Reaches.reads (reached : Reaches tiers tokens tree rest) (stops : Stops tiers rest) :
    Reads (parseTiers tiers tokens) Expression.bare tree rest := by
  cases tiers with
  | zero => exact reached stops
  | succ tier =>
    obtain ⟨start, left, last, remaining, same, covered, continued⟩ := reached stops.tighter
    rw [← covered] at stops
    obtain ⟨chain, stopped, value, unread⟩ := parseChain_stops stops
    obtain ⟨parsed, success, value', rest'⟩ := continued chain stopped
    exact ⟨parsed, success, by rw [value', value, same], by rw [rest', unread, covered]⟩

private theorem reaches_operand (reached : Reaches tier tokens tree rest) :
    Reaches (tier + 1) tokens tree rest := by
  intro stops
  obtain ⟨operand, success, same, covered⟩ := reached.reads stops
  cases tokens with
  | nil => exact absurd operand.within (Nat.not_lt_zero _)
  | cons token others =>
    refine ⟨token.position, operand.value, operand.last, operand.rest, same, covered, ?_⟩
    intro chain continued
    refine ⟨⟨chain.value, chain.last, chain.rest, by grind⟩, ?_, rfl, rfl⟩
    rw [parseTiers, success]
    simp only [bind, Except.bind, continued]
    rfl

private theorem reaches_join (found : infixOf? tier (.symbol sign) = some infixed)
    (left : Reaches (tier + 1) tokens tree (.symbol sign :: middle))
    (right : ∀ remaining, lexemes remaining = middle → Reaches tier remaining other rest) :
    Reaches (tier + 1) tokens (infixed.join tree other) rest := by
  intro stops
  obtain ⟨start, first, last, remaining, rfl, covered, continued⟩ := left (stops_operator found)
  obtain ⟨position, others, rfl, tail⟩ := lexemes_eq_cons.mp covered
  obtain ⟨second, success, rfl, covered'⟩ := (right others tail).reads stops
  refine ⟨start, infixed.apply ⟨start, second.last⟩ first second.value, second.last, second.rest,
    infixed.bare_apply _ _ _, covered', ?_⟩
  intro chain joined
  refine continued ⟨chain.value, chain.last, chain.rest, by grind⟩ ?_
  rw [parseChain, found]
  simp only [bind, Except.bind, success, joined]
  rfl

private theorem parseTiers_rightParen (tiers : Nat) (position : Position) (rest : List Token) :
    parseTiers tiers (⟨.symbol .rightParen, position⟩ :: rest) =
      .error ⟨.value, ⟨.symbol .rightParen, position⟩ :: rest⟩ := by
  induction tiers with
  | zero => simp [parseTiers, parsePrimary]
  | succ tier ih =>
    rw [parseTiers, ih]
    rfl

theorem Grammar.MoreArguments.stops (others : MoreArguments phrases trees) :
    Stops tiers (phrases ++ .symbol .rightParen :: rest) := by
  cases others with
  | none => exact stops_closing (by simp)
  | some next others => exact stops_closing (by simp)

mutual

theorem Grammar.Level.reaches : Level level phrase tree → lexemes tokens = phrase ++ rest →
    Reaches level tokens tree rest
  | .primary inner, covered => by
    intro stops
    rw [parseTiers]
    exact inner.reads covered stops
  | .operand inner, covered => reaches_operand (inner.reaches covered)
  | .join left listed member right, covered => by
    have found := infixOf?_eq_some.mpr ⟨_, _, listed, member, rfl⟩
    rw [List.append_assoc] at covered
    exact reaches_join found (left.reaches covered) fun _ covered => right.reaches covered

theorem Grammar.Primary.reads : Primary phrase tree → lexemes tokens = phrase ++ rest →
    Stops 0 rest → Reads (parsePrimary tokens) Expression.bare tree rest
  | .number, covered, _ => by
    obtain ⟨_, _, rfl, tail⟩ := lexemes_eq_cons.mp covered
    exact ⟨_, by rw [parsePrimary], rfl, tail⟩
  | .string, covered, _ => by
    obtain ⟨_, _, rfl, tail⟩ := lexemes_eq_cons.mp covered
    exact ⟨_, by rw [parsePrimary], rfl, tail⟩
  | .boolean, covered, _ => by
    obtain ⟨_, _, rfl, tail⟩ := lexemes_eq_cons.mp covered
    exact ⟨_, by rw [parsePrimary], rfl, tail⟩
  | .identifier, covered, stops => by
    obtain ⟨position, others, rfl, rfl⟩ := lexemes_eq_cons.mp covered
    refine ⟨⟨.identifier (.point position) _, position, others, by simp⟩, ?_, rfl, rfl⟩
    rw [parsePrimary]
    rintro _ _ rfl
    exact (stops (.symbol .leftParen) rfl).1 rfl
  | .call inner, covered, _ => by
    rw [List.cons_append, List.cons_append, List.append_assoc] at covered
    obtain ⟨_, _, rfl, tail⟩ := lexemes_eq_cons.mp covered
    obtain ⟨_, _, rfl, tail'⟩ := lexemes_eq_cons.mp tail
    rw [parsePrimary]
    refine (inner.reads tail').bind fun arguments same unread => ?_
    exact ⟨_, rfl, by rw [Expression.bare, same], unread⟩
  | .parentheses inner, covered, _ => by
    rw [List.cons_append, List.append_assoc] at covered
    obtain ⟨_, _, rfl, tail⟩ := lexemes_eq_cons.mp covered
    rw [parsePrimary]
    have read := (inner.reaches tail).reads (stops_closing (by simp))
    refine read.bind fun inner same unread => ?_
    refine (expectSymbol_reads unread).bind fun close _ unread => ?_
    exact ⟨_, rfl, same, unread⟩

theorem Grammar.Arguments.reads : Arguments phrase trees →
    lexemes tokens = phrase ++ .symbol .rightParen :: rest →
    Reads (parseArguments tokens) Expression.bareAll trees rest
  | .none, covered => by
    obtain ⟨_, _, rfl, tail⟩ := lexemes_eq_cons.mp covered
    exact ⟨_, by rw [parseArguments], rfl, tail⟩
  | .some first others, covered => by
    rw [List.append_assoc] at covered
    have head := (first.reaches covered).reads others.stops
    rw [parseArguments.eq_def]
    split
    · obtain ⟨_, impossible, _⟩ := head
      rw [parseTiers_rightParen] at impossible
      cases impossible
    · refine head.bind fun first same unread => ?_
      refine (others.reads unread).bind fun others same' unread => ?_
      exact ⟨_, rfl, by rw [Expression.bareAll, same, same'], unread⟩

theorem Grammar.MoreArguments.reads : MoreArguments phrase trees →
    lexemes tokens = phrase ++ .symbol .rightParen :: rest →
    Reads (parseMoreArguments tokens) Expression.bareAll trees rest
  | .none, covered => by
    obtain ⟨_, _, rfl, _⟩ := lexemes_eq_cons.mp covered
    rw [parseMoreArguments]
    · refine (expectSymbol_reads covered).bind fun close _ unread => ?_
      exact ⟨_, rfl, rfl, unread⟩
    · nofun
  | .some next others, covered => by
    rw [List.cons_append, List.append_assoc] at covered
    obtain ⟨_, _, rfl, tail⟩ := lexemes_eq_cons.mp covered
    rw [parseMoreArguments]
    refine ((next.reaches tail).reads others.stops).bind fun next same unread => ?_
    refine (others.reads unread).bind fun others same' unread => ?_
    exact ⟨_, rfl, by rw [Expression.bareAll, same, same'], unread⟩

end

theorem Grammar.reads_expression (value : Expression phrase tree)
    (covered : lexemes tokens = phrase ++ .symbol closing :: rest)
    (closes : closing ∈ [Symbol.rightParen, .comma, .semicolon]) :
    Reads (parseExpression tokens) ScriptKit.Expression.bare tree (.symbol closing :: rest) :=
  (value.reaches covered).reads (stops_closing closes)

theorem Grammar.reads_condition (test : Expression phrase tree)
    (covered : lexemes tokens =
      .symbol .leftParen :: (phrase ++ .symbol .rightParen :: rest)) :
    Reads (parseCondition tokens) ScriptKit.Expression.bare tree rest := by
  refine (expectSymbol_reads covered).bind fun opening _ unread => ?_
  refine (reads_expression test unread (by simp)).bind fun test same unread => ?_
  refine (expectSymbol_reads unread).bind fun close _ unread => ?_
  exact ⟨_, rfl, same, unread⟩

private theorem parseMoreParameters_reads (covered : lexemes tokens =
      (names.flatMap fun name => [.symbol .comma, .identifier name]) ++
        .symbol .rightParen :: rest) :
    Reads (parseMoreParameters tokens) id names rest := by
  induction names generalizing tokens with
  | nil =>
    obtain ⟨_, _, rfl, _⟩ := lexemes_eq_cons.mp covered
    rw [parseMoreParameters]
    · refine (expectSymbol_reads covered).bind fun close _ unread => ?_
      exact ⟨_, rfl, rfl, unread⟩
    · nofun
  | cons name names ih =>
    rw [List.flatMap_cons, List.append_assoc] at covered
    obtain ⟨_, _, rfl, tail⟩ := lexemes_eq_cons.mp covered
    rw [parseMoreParameters]
    refine (expectIdentifier_reads tail).bind fun next same unread => ?_
    refine (ih unread).bind fun others same' unread => ?_
    exact ⟨_, rfl, List.cons_eq_cons.mpr ⟨same, same'⟩, unread⟩

private theorem parseParameters_reads (covered : lexemes tokens =
      Grammar.parameters names ++ .symbol .rightParen :: rest) :
    Reads (parseParameters tokens) id names rest := by
  cases names with
  | nil =>
    obtain ⟨_, _, rfl, tail⟩ := lexemes_eq_cons.mp covered
    exact ⟨_, rfl, rfl, tail⟩
  | cons name names =>
    rw [Grammar.parameters_cons, List.cons_append] at covered
    obtain ⟨_, _, rfl, _⟩ := lexemes_eq_cons.mp covered
    refine (expectIdentifier_reads covered).bind fun first same unread => ?_
    refine (parseMoreParameters_reads unread).bind fun others same' unread => ?_
    exact ⟨_, rfl, List.cons_eq_cons.mpr ⟨same, same'⟩, unread⟩

/-- Statements are read one after the other, up to `rest`. -/
inductive ReadsAll (rest : List Lexeme) : List Token → List Bare.Statement → Prop where
  | nil (covered : lexemes tokens = rest) : ReadsAll rest tokens []
  | cons (first : parseStatement tokens = .ok parsed) (others : ReadsAll rest parsed.rest trees) :
      ReadsAll rest tokens (parsed.value.bare :: trees)

theorem ReadsAll.block (reads : ReadsAll (.symbol .rightBrace :: rest) tokens trees) :
    Reads (parseBlock tokens) Statement.bareAll trees rest := by
  induction reads with
  | nil covered =>
    obtain ⟨_, _, rfl, tail⟩ := lexemes_eq_cons.mp covered
    exact ⟨_, by rw [parseBlock], rfl, tail⟩
  | cons first others ih =>
    rw [parseBlock.eq_def]
    split
    · simp [parseStatement] at first
    · simp [parseStatement] at first
    · rw [first]
      refine ih.bind fun others same unread => ?_
      exact ⟨_, rfl, by rw [Statement.bareAll, same], unread⟩

theorem ReadsAll.program (reads : ReadsAll [] tokens trees) (last : Position) :
    ∃ statements stop, parseStatements last tokens = .ok (statements, stop) ∧
      Statement.bareAll statements = trees := by
  induction reads generalizing last with
  | nil covered =>
    obtain rfl := List.map_eq_nil_iff.mp covered
    exact ⟨[], last, by rw [parseStatements], rfl⟩
  | @cons tokens parsed trees first others ih =>
    obtain ⟨statements, stop, success, rfl⟩ := ih parsed.last
    refine ⟨parsed.value :: statements, stop, ?_, rfl⟩
    rw [parseStatements.eq_def]
    split
    · simp [parseStatement] at first
    · rw [first]
      simp only [bind, Except.bind, success]
      rfl

mutual

theorem Grammar.Statement.reads : Statement next phrase tree → lexemes tokens = phrase ++ rest →
    rest.head? = next → Reads (parseStatement tokens) ScriptKit.Statement.bare tree rest
  | .declare value, covered, _ => by
    simp only [List.cons_append, List.append_assoc, List.nil_append] at covered
    obtain ⟨_, _, rfl, tail⟩ := lexemes_eq_cons.mp covered
    rw [parseStatement]
    refine (expectIdentifier_reads tail).bind fun name named unread => ?_
    refine (expectSymbol_reads unread).bind fun sign _ unread => ?_
    refine (reads_expression value unread (by simp)).bind fun value same unread => ?_
    refine (expectSymbol_reads unread).bind fun close _ unread => ?_
    exact ⟨_, rfl, by rw [Statement.bare, same, ← named]; rfl, unread⟩
  | .assign value, covered, _ => by
    simp only [List.cons_append, List.append_assoc, List.nil_append] at covered
    obtain ⟨_, _, rfl, tail⟩ := lexemes_eq_cons.mp covered
    obtain ⟨_, _, rfl, tail'⟩ := lexemes_eq_cons.mp tail
    rw [parseStatement]
    refine (reads_expression value tail' (by simp)).bind fun value same unread => ?_
    refine (expectSymbol_reads unread).bind fun close _ unread => ?_
    exact ⟨_, rfl, by rw [Statement.bare, same], unread⟩
  | .call inner, covered, _ => by
    simp only [List.cons_append, List.append_assoc, List.nil_append] at covered
    obtain ⟨_, _, rfl, tail⟩ := lexemes_eq_cons.mp covered
    obtain ⟨_, _, rfl, tail'⟩ := lexemes_eq_cons.mp tail
    rw [parseStatement]
    refine (inner.reads tail').bind fun arguments same unread => ?_
    refine (expectSymbol_reads unread).bind fun close _ unread => ?_
    exact ⟨_, rfl, by rw [Statement.bare, same], unread⟩
  | .giveBack argument, covered, _ => by
    simp only [List.cons_append, List.append_assoc, List.nil_append] at covered
    obtain ⟨_, _, rfl, tail⟩ := lexemes_eq_cons.mp covered
    rw [parseStatement]
    refine (reads_expression argument tail (by simp)).bind fun argument same unread => ?_
    refine (expectSymbol_reads unread).bind fun close _ unread => ?_
    exact ⟨_, rfl, by rw [Statement.bare, same], unread⟩
  | .print argument, covered, _ => by
    simp only [List.cons_append, List.append_assoc, List.nil_append] at covered
    obtain ⟨_, _, rfl, tail⟩ := lexemes_eq_cons.mp covered
    rw [parseStatement]
    refine (reads_condition argument tail).bind fun argument same unread => ?_
    refine (expectSymbol_reads unread).bind fun close _ unread => ?_
    exact ⟨_, rfl, by rw [Statement.bare, same], unread⟩
  | .importFile, covered, _ => by
    simp only [List.cons_append, List.nil_append] at covered
    obtain ⟨_, _, rfl, tail⟩ := lexemes_eq_cons.mp covered
    rw [parseStatement]
    refine (expectSymbol_reads tail).bind fun opening _ unread => ?_
    refine (expectString_reads unread).bind fun path same unread => ?_
    refine (expectSymbol_reads unread).bind fun closing _ unread => ?_
    refine (expectSymbol_reads unread).bind fun close _ unread => ?_
    exact ⟨_, rfl, by rw [Statement.bare, ← same]; rfl, unread⟩
  | .block body, covered, _ => by
    simp only [List.cons_append, List.append_assoc, List.nil_append] at covered
    obtain ⟨_, _, rfl, tail⟩ := lexemes_eq_cons.mp covered
    rw [parseStatement]
    refine (body.readsAll tail rfl).block.bind fun body same unread => ?_
    exact ⟨_, rfl, by rw [Statement.bare, same], unread⟩
  | .branch test consequent closed, covered, following => by
    simp only [List.cons_append, List.append_assoc] at covered
    obtain ⟨_, _, rfl, tail⟩ := lexemes_eq_cons.mp covered
    rw [parseStatement]
    refine (reads_condition test tail).bind fun test same unread => ?_
    refine (consequent.reads unread following).bind fun consequent same' unread => ?_
    split
    · rename_i present
      rw [← following, ← unread, present] at closed
      exact absurd rfl closed
    · exact ⟨_, rfl, by rw [Statement.bare, same, same'], unread⟩
  | .alternative test consequent alternate, covered, following => by
    simp only [List.cons_append, List.append_assoc] at covered
    obtain ⟨_, _, rfl, tail⟩ := lexemes_eq_cons.mp covered
    rw [parseStatement]
    refine (reads_condition test tail).bind fun test same unread => ?_
    refine (consequent.reads unread rfl).bind fun consequent same' unread => ?_
    obtain ⟨_, _, present, unread⟩ := lexemes_eq_cons.mp unread
    split
    · rename_i present'
      cases present.symm.trans present'
      refine (alternate.reads unread following).bind fun alternate same'' unread => ?_
      exact ⟨_, rfl, by rw [Statement.bare, same, same', same''], unread⟩
    · rename_i absent
      exact absurd present (absent _ _)
  | .loop test body, covered, following => by
    simp only [List.cons_append, List.append_assoc] at covered
    obtain ⟨_, _, rfl, tail⟩ := lexemes_eq_cons.mp covered
    rw [parseStatement]
    refine (reads_condition test tail).bind fun test same unread => ?_
    refine (body.reads unread following).bind fun body same' unread => ?_
    exact ⟨_, rfl, by rw [Statement.bare, same, same'], unread⟩
  | .function body, covered, following => by
    simp only [List.cons_append, List.append_assoc] at covered
    obtain ⟨_, _, rfl, tail⟩ := lexemes_eq_cons.mp covered
    rw [parseStatement]
    refine (expectIdentifier_reads tail).bind fun name named unread => ?_
    refine (expectSymbol_reads unread).bind fun opening _ unread => ?_
    refine (parseParameters_reads unread).bind fun parameters listed unread => ?_
    refine (body.reads unread following).bind fun body same unread => ?_
    exact ⟨_, rfl, by rw [Statement.bare, same, ← named, ← listed]; rfl, unread⟩

theorem Grammar.Statements.readsAll : Statements next phrase trees →
    lexemes tokens = phrase ++ rest → rest.head? = next → ReadsAll rest tokens trees
  | .nil, covered, _ => .nil covered
  | .cons first others, covered, following => by
    rw [List.append_assoc] at covered
    obtain ⟨parsed, success, rfl, unread⟩ :=
      first.reads covered (by rw [List.head?_append, following])
    exact .cons success (others.readsAll unread following)

end

theorem Grammar.Derives.parsed (derived : Derives (lexemes stream.tokens) trees) :
    ∃ program, parseProgram stream = .ok program ∧ program.bare = trees := by
  have reads : ReadsAll [] stream.tokens trees := derived.readsAll (List.append_nil _).symm rfl
  obtain ⟨statements, stop, success, same⟩ :=
    reads.program ((stream.tokens.head?.map Token.position).getD stream.stop)
  exact ⟨_, bind_eq_ok.mpr ⟨_, success, rfl⟩, same⟩

theorem parseProgram_derives (success : parseProgram stream = .ok program) :
    Grammar.Derives (lexemes stream.tokens) program.bare := by
  obtain ⟨statements, read, success⟩ := bind_eq_ok.mp success
  cases success
  exact parseStatements_accepted read

/-- Any lexemes are those of some stream, and that stream has one parse. -/
theorem Grammar.Derives.unique {phrase : List Lexeme} (derived : Derives phrase trees)
    (derived' : Derives phrase trees') : trees = trees' := by
  let stream : TokenStream := ⟨phrase.map (⟨·, default⟩), default⟩
  have covered : lexemes stream.tokens = phrase := by
    simp [stream, lexemes, Function.comp_def]
  rw [← covered] at derived derived'
  obtain ⟨program, success, rfl⟩ := derived.parsed
  obtain ⟨program', success', rfl⟩ := derived'.parsed
  rw [success] at success'
  cases success'
  rfl

theorem Program.ofStream_eq_ok :
    ofStream stream file = .ok program ↔ parseProgram stream = .ok program := by
  unfold ofStream
  split <;> simp_all

theorem Program.ofSource_eq_ok :
    ofSource source file = .ok program ↔
      ∃ stream, TokenStream.ofSource source = .ok stream ∧ parseProgram stream = .ok program := by
  unfold ofSource
  split
  · rename_i stream tokens
    rw [ofStream_eq_ok]
    simp [tokens]
  · rename_i fault tokens
    simp [tokens]

/-- A stream is read as the tree its lexemes derive, no lexemes derive two trees, and where they
derive none the stream is refused with an error of the parser. -/
theorem Program.ofStream_recognizes (stream : TokenStream) (file : Option String) :
    (∀ trees, (∃ program, ofStream stream file = .ok program ∧ program.bare = trees) ↔
      Grammar.Derives (lexemes stream.tokens) trees) ∧
    (∀ phrase trees trees', Grammar.Derives phrase trees → Grammar.Derives phrase trees' →
      trees = trees') ∧
    ((∀ trees, ¬ Grammar.Derives (lexemes stream.tokens) trees) ↔
      ∃ error, ofStream stream file = .error (.reported error) ∧ error.phase = .parsing) := by
  refine ⟨?_, fun _ _ _ derived derived' => derived.unique derived', ?_⟩
  · intro trees
    constructor
    · rintro ⟨program, success, rfl⟩
      exact parseProgram_derives (ofStream_eq_ok.mp success)
    · intro derived
      obtain ⟨program, success, same⟩ := derived.parsed
      exact ⟨program, ofStream_eq_ok.mpr success, same⟩
  · constructor
    · intro underivable
      cases outcome : parseProgram stream with
      | ok program => exact absurd (parseProgram_derives outcome) (underivable _)
      | error rejection => exact ⟨_, by rw [ofStream, outcome], rfl⟩
    · rintro ⟨error, refused, _⟩ trees derived
      obtain ⟨program, success, _⟩ := derived.parsed
      rw [ofStream_eq_ok.mpr success] at refused
      cases refused

/-- An `else` belongs to the nearest `if`. -/
theorem Program.ofStream_recognizes_else :
    ∃ program, ofStream ⟨[.keyword .ifWord, .symbol .leftParen, .boolean true, .symbol .rightParen,
        .keyword .ifWord, .symbol .leftParen, .boolean false, .symbol .rightParen,
        .symbol .leftBrace, .symbol .rightBrace, .keyword .elseWord,
        .symbol .leftBrace, .symbol .rightBrace].map (⟨·, default⟩), default⟩ none = .ok program ∧
      program.bare = [.branch (.literal (.boolean true))
        (.branch (.literal (.boolean false)) (.block []) (some (.block []))) none] := by
  have boolean (value : Bool) : Grammar.Expression [.boolean value] (.literal (.boolean value)) :=
    .operand (.operand (.operand (.operand (.operand (.operand (.primary .boolean))))))
  have inner : Grammar.Statement none _ _ :=
    .alternative (boolean false) (.block .nil) (.block .nil)
  have outer : Grammar.Statement (([] : List Lexeme).head?.or none) _ _ :=
    .branch (boolean true) inner nofun
  exact ((ofStream_recognizes _ none).1 _).mpr (Grammar.Statements.cons outer .nil)

end ScriptKit
