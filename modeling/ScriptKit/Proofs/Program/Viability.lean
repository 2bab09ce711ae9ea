import Mathlib.Computability.Language
import ScriptKit.Proofs.Program.Recognition
import ScriptKit.Proofs.Program.Rules

/-!
A stream is refused at the first token that cannot be right. What every rule uses up before it
refuses can be completed to a phrase of the grammar, and the token at which it refuses cannot be
followed by anything that would help.
-/
namespace ScriptKit
namespace Grammar

/-- No statement starts with `else`. -/
theorem Statement.starts (derived : Statement next phrase tree) :
    ∃ lexeme rest, phrase = lexeme :: rest ∧ lexeme ≠ .keyword .elseWord := by
  cases derived <;> exact ⟨_, _, rfl, by simp⟩

/-- A statement that may stand before something may stand before all that is no `else`. -/
theorem Statement.before : Statement next phrase tree → next' ≠ some (.keyword .elseWord) →
    Statement next' phrase tree
  | .declare value, _ => .declare value
  | .assign value, _ => .assign value
  | .call inner, _ => .call inner
  | .giveBack argument, _ => .giveBack argument
  | .print argument, _ => .print argument
  | .importFile, _ => .importFile
  | .block body, _ => .block body
  | .branch test consequent _, other => .branch test (consequent.before other) other
  | .alternative test consequent alternate, other =>
    .alternative test consequent (alternate.before other)
  | .loop test body, other => .loop test (body.before other)
  | .function body, other => .function (body.before other)

theorem Statements.starts (derived : Statements next phrases trees)
    (other : next ≠ some (.keyword .elseWord)) :
    phrases.head?.or next ≠ some (.keyword .elseWord) := by
  cases derived with
  | nil => exact other
  | cons first others =>
    obtain ⟨lexeme, rest, rfl, apart⟩ := first.starts
    exact fun same => apart (Option.some.inj same)

end Grammar

namespace Recognizer
open Grammar

/-- The phrases that have a tree. -/
def words (derives : List Lexeme → α → Prop) : Language Lexeme :=
  {phrase | ∃ tree, derives phrase tree}

abbrev values : Language Lexeme := words Grammar.Expression

/-- Statements that no `else` follows. -/
abbrev sentences : Language Lexeme := words (Grammar.Statement none)

abbrev mark (symbol : Symbol) : Language Lexeme := {[.symbol symbol]}

def names : Language Lexeme := {phrase | ∃ name, phrase = [.identifier name]}

def texts : Language Lexeme := {phrase | ∃ text, phrase = [.string text]}

/-- What may follow an operand of the tier, up to the end of the chain. -/
def chains (tier : Nat) : Language Lexeme :=
  {phrase | ∀ before ∈ words (Level (tier + 1)), before ++ phrase ∈ words (Level (tier + 1))}

/-- A list of parameters with its closing parenthesis. -/
def lists : Language Lexeme :=
  words (fun phrase names => phrase = parameters names) * mark .rightParen

/-- What may follow the first parameter, up to the closing parenthesis. -/
def moreNames : Language Lexeme :=
  {phrase | ∀ name, ∃ names, .identifier name :: phrase =
    parameters (name :: names) ++ [.symbol .rightParen]}

/-- An expression in parentheses. -/
def tests : Language Lexeme := mark .leftParen * (values * mark .rightParen)

/-- What may follow the condition of an `if`. -/
def clauses : Language Lexeme :=
  {phrase | ∀ condition ∈ tests, .keyword .ifWord :: (condition ++ phrase) ∈ sentences}

section phrases

theorem level_mem (tiers : Nat) : [.boolean true] ∈ words (Level tiers) := by
  induction tiers with
  | zero => exact ⟨_, .primary .boolean⟩
  | succ tier ih =>
    obtain ⟨tree, derived⟩ := ih
    exact ⟨tree, .operand derived⟩

theorem value_mem (symbol : Symbol) : [.boolean true, .symbol symbol] ∈ values * mark symbol :=
  ⟨_, level_mem _, _, rfl, rfl⟩

theorem nil_mem_chains (tier : Nat) : [] ∈ chains tier := by
  intro before derived
  rwa [List.append_nil]

/-- One more operator of the tier with its operand. -/
theorem chains_cons (found : infixOf? tier lexeme = some infixed)
    (member : phrase ∈ words (Level tier) * chains tier) : lexeme :: phrase ∈ chains tier := by
  obtain ⟨operand, ⟨right, derived⟩, following, goesOn, rfl⟩ := member
  obtain ⟨operators, sign, listed, signed, rfl⟩ := infixOf?_eq_some.mp found
  rintro before ⟨left, first⟩
  have joined := goesOn _ ⟨_, .join first listed signed derived⟩
  simpa using joined

theorem close_mem_arguments :
    [.symbol .rightParen] ∈ words MoreArguments * mark .rightParen :=
  ⟨[], ⟨_, .none⟩, _, rfl, rfl⟩

theorem close_mem_names : [.symbol .rightParen] ∈ moreNames := fun _ => ⟨[], rfl⟩

theorem close_mem_lists : [.symbol .rightParen] ∈ lists := ⟨_, ⟨[], rfl⟩, _, rfl, rfl⟩

theorem moreNames_cons (member : phrase ∈ names * moreNames) :
    .symbol .comma :: phrase ∈ moreNames := by
  obtain ⟨_, ⟨second, rfl⟩, phrase, others, rfl⟩ := member
  intro first
  obtain ⟨names, same⟩ := others second
  exact ⟨second :: names, congrArg (.identifier first :: .symbol .comma :: ·) same⟩

theorem braces_mem : [.symbol .leftBrace, .symbol .rightBrace] ∈ sentences := ⟨_, .block .nil⟩

theorem declare_mem (member : phrase ∈ names * (mark .assign * (values * mark .semicolon))) :
    .keyword .letWord :: phrase ∈ sentences := by
  obtain ⟨_, ⟨name, rfl⟩, _, ⟨_, rfl, _, ⟨value, ⟨tree, derived⟩, _, rfl, rfl⟩, rfl⟩, rfl⟩ := member
  exact ⟨_, .declare derived⟩

theorem assign_mem (name : String) (member : phrase ∈ values * mark .semicolon) :
    .identifier name :: .symbol .assign :: phrase ∈ sentences := by
  obtain ⟨value, ⟨tree, derived⟩, _, rfl, rfl⟩ := member
  exact ⟨_, .assign derived⟩

theorem call_mem (name : String)
    (member : phrase ∈ words Arguments * mark .rightParen * mark .semicolon) :
    .identifier name :: .symbol .leftParen :: phrase ∈ sentences := by
  rw [mul_assoc] at member
  obtain ⟨inner, ⟨trees, derived⟩, _, ⟨_, rfl, _, rfl, rfl⟩, rfl⟩ := member
  exact ⟨_, .call derived⟩

theorem giveBack_mem (member : phrase ∈ values * mark .semicolon) :
    .keyword .returnWord :: phrase ∈ sentences := by
  obtain ⟨value, ⟨tree, derived⟩, _, rfl, rfl⟩ := member
  exact ⟨_, .giveBack derived⟩

/-- A condition and what follows it. -/
theorem tests_mul (member : phrase ∈ tests * language) :
    ∃ condition tree, Grammar.Expression condition tree ∧ ∃ others ∈ language,
      phrase = .symbol .leftParen :: (condition ++ .symbol .rightParen :: others) := by
  rw [tests, mul_assoc, mul_assoc] at member
  obtain ⟨_, rfl, _, ⟨condition, ⟨tree, derived⟩, _, ⟨_, rfl, others, member, rfl⟩, rfl⟩, rfl⟩ :=
    member
  exact ⟨condition, tree, derived, others, member, rfl⟩

theorem print_mem (member : phrase ∈ tests * mark .semicolon) :
    .keyword .printWord :: phrase ∈ sentences := by
  obtain ⟨argument, tree, derived, _, rfl, rfl⟩ := tests_mul member
  exact ⟨_, .print derived⟩

theorem loop_mem (member : phrase ∈ tests * sentences) :
    .keyword .whileWord :: phrase ∈ sentences := by
  obtain ⟨condition, tree, test, body, ⟨clause, derived⟩, rfl⟩ := tests_mul member
  exact ⟨_, .loop test derived⟩

theorem import_mem
    (member : phrase ∈ mark .leftParen * (texts * (mark .rightParen * mark .semicolon))) :
    .keyword .importWord :: phrase ∈ sentences := by
  obtain ⟨_, rfl, _, ⟨_, ⟨path, rfl⟩, _, ⟨_, rfl, _, rfl, rfl⟩, rfl⟩, rfl⟩ := member
  exact ⟨_, .importFile⟩

theorem function_mem (member : phrase ∈ names * (mark .leftParen * (lists * sentences))) :
    .keyword .functionWord :: phrase ∈ sentences := by
  rw [lists, mul_assoc] at member
  obtain ⟨_, ⟨name, rfl⟩, _, ⟨_, rfl, _, ⟨_, ⟨names, rfl⟩, _, ⟨_, rfl, body, ⟨clause, derived⟩, rfl⟩,
    rfl⟩, rfl⟩, rfl⟩ := member
  exact ⟨_, .function derived⟩

theorem sentences_clauses (member : phrase ∈ sentences) : phrase ∈ clauses := by
  intro condition test
  obtain ⟨condition, tree, test, others, ⟨clause, derived⟩, shape⟩ :=
    tests_mul (Language.append_mem_mul test member)
  rw [shape]
  exact ⟨_, .branch test derived (by simp)⟩

theorem clauses_alternative
    (first : Grammar.Statement (some (.keyword .elseWord)) phrase clause)
    (second : phrase' ∈ sentences) : phrase ++ .keyword .elseWord :: phrase' ∈ clauses := by
  intro condition test
  obtain ⟨other, alternate⟩ := second
  obtain ⟨condition, tree, test, _, rfl, shape⟩ :=
    tests_mul (Language.append_mem_mul test (Set.mem_singleton _))
  rw [shape]
  exact ⟨_, .alternative test first alternate⟩

/-- The statement in front of others, which do not begin with `else`. -/
theorem statements_cons (other : next ≠ some (.keyword .elseWord))
    (member : phrase ∈ sentences * words (Statements next)) : phrase ∈ words (Statements next) := by
  obtain ⟨phrase, ⟨tree, first⟩, phrases, ⟨trees, others⟩, rfl⟩ := member
  exact ⟨tree :: trees, .cons (first.before (others.starts other)) others⟩

end phrases

/-- What the recognizer uses up can be completed to a phrase of the language, and is one where the
recognizer succeeds. All it looks at are the tokens that it uses up and the one after them: it does the
same before any other tokens that begin with that one. -/
def Serves (recognizer : Recognizer) (language : Language Lexeme) (tokens : List Token) : Prop :=
  ∃ used more, tokens = used ++ (recognizer tokens).2 ∧ lexemes used ++ more ∈ language ∧
    ((recognizer tokens).1 = true → more = []) ∧
    ∀ rest, rest.head? = (recognizer tokens).2.head? →
      recognizer (used ++ rest) = ((recognizer tokens).1, rest)

theorem head?_append {used first second : List Token} (same : first.head? = second.head?) :
    (used ++ first).head? = (used ++ second).head? := by
  cases used with
  | nil => exact same
  | cons token others => rfl

namespace Serves

theorem mono (serves : Serves recognizer language tokens)
    (contained : ∀ phrase ∈ language, phrase ∈ language') :
    Serves recognizer language' tokens := by
  obtain ⟨used, more, split, word, rest⟩ := serves
  exact ⟨used, more, split, contained _ word, rest⟩

theorem nil {recognizer : Recognizer} (same : recognizer [] = (accepted, []))
    (word : phrase ∈ language) (whole : accepted = true → phrase = []) :
    Serves recognizer language [] := by
  rw [Serves, same]
  refine ⟨[], phrase, rfl, word, whole, fun rest agree => ?_⟩
  rw [List.head?_eq_none_iff.mp agree]
  exact same

theorem refused_nil {recognizer : Recognizer} (same : recognizer [] = (false, []))
    (word : phrase ∈ language) : Serves recognizer language [] :=
  nil same word nofun

theorem done_nil {recognizer : Recognizer} (same : recognizer [] = (true, []))
    (word : [] ∈ language) : Serves recognizer language [] :=
  nil same word fun _ => rfl

/-- The recognizer chooses another one by the next token. -/
theorem congr {recognizer other : Recognizer}
    (same : ∀ rest, recognizer (token :: rest) = other (token :: rest))
    (serves : Serves other language (token :: rest)) : Serves recognizer language (token :: rest) := by
  obtain ⟨used, more, split, word, whole, again⟩ := serves
  rw [← same] at split whole again
  refine ⟨used, more, split, word, whole, fun rest' agree => ?_⟩
  obtain ⟨others, shape⟩ : ∃ others, used ++ rest' = token :: others := by
    have begins : (used ++ rest').head? = some token := by rw [head?_append agree, ← split]; rfl
    exact List.head?_eq_some_iff.mp begins
  rw [← again rest' agree, shape, same]

theorem stays {recognizer : Recognizer}
    (same : ∀ rest, recognizer (token :: rest) = (accepted, token :: rest))
    (word : phrase ∈ language) (whole : accepted = true → phrase = []) :
    Serves recognizer language (token :: rest) :=
  congr same ⟨[], phrase, rfl, word, whole, fun _ _ => rfl⟩

theorem refused {recognizer : Recognizer}
    (same : ∀ rest, recognizer (token :: rest) = (false, token :: rest)) (word : phrase ∈ language) :
    Serves recognizer language (token :: rest) :=
  stays same word nofun

theorem done {recognizer : Recognizer}
    (same : ∀ rest, recognizer (token :: rest) = (true, token :: rest)) (word : [] ∈ language) :
    Serves recognizer language (token :: rest) :=
  stays same word fun _ => rfl

/-- The recognizer uses up the next token and goes on as another one. -/
theorem cons {recognizer next : Recognizer} (same : ∀ rest, recognizer (token :: rest) = next rest)
    (serves : Serves next language rest)
    (contained : ∀ phrase ∈ language, token.lexeme :: phrase ∈ language') :
    Serves recognizer language' (token :: rest) := by
  obtain ⟨used, more, split, word, whole, again⟩ := serves
  rw [Serves, same]
  refine ⟨token :: used, more, congrArg (token :: ·) split, contained _ word, whole, ?_⟩
  intro rest' agree
  rw [List.cons_append, same, again rest' agree]

theorem taken {recognizer : Recognizer} (same : ∀ rest, recognizer (token :: rest) = (true, rest))
    (word : [token.lexeme] ∈ language) : Serves recognizer language (token :: rest) := by
  rw [Serves, same]
  exact ⟨[token], [], rfl, word, fun _ => rfl, fun _ _ => same _⟩

/-- After what the first recognizer uses up, the next one serves for what is left of a phrase. -/
theorem follow {first next : Recognizer} (serves : Serves first language tokens)
    (further : ∀ phrase ∈ language, ∃ more, phrase ++ more ∈ language')
    (serves' : (first tokens).1 = true → ∀ used, tokens = used ++ (first tokens).2 →
      lexemes used ∈ language →
      Serves next {following | lexemes used ++ following ∈ language'} (first tokens).2) :
    Serves (first.andThen next) language' tokens := by
  obtain ⟨used, more, split, word, whole, again⟩ := serves
  cases accepted : (first tokens).1 with
  | false =>
    obtain ⟨more', word'⟩ := further _ word
    rw [Serves, andThen_refused accepted]
    refine ⟨used, more ++ more', split, List.append_assoc .. ▸ word', fun success => ?_,
      fun rest agree => ?_⟩
    · cases accepted.symm.trans success
    have refused := again rest agree
    rw [andThen_refused (by rw [refused, accepted]), refused]
  | true =>
    obtain rfl := whole accepted
    rw [List.append_nil] at word
    obtain ⟨used', more', split', word', whole', again'⟩ := serves' accepted used split word
    rw [Serves, andThen_accepted accepted]
    refine ⟨used ++ used', more', by rw [List.append_assoc, ← split', ← split], ?_, whole',
      fun rest agree => ?_⟩
    · rw [lexemes, List.map_append, List.append_assoc]
      exact word'
    · have reached : first (used ++ (used' ++ rest)) = (true, used' ++ rest) := by
        rw [← accepted]
        exact again _ (by rw [head?_append agree, ← split'])
      rw [List.append_assoc, andThen_accepted (by rw [reached]), reached, again' rest agree]

theorem andThen {first next : Recognizer} (serves : Serves first language tokens)
    (serves' : (first tokens).1 = true → Serves next language' (first tokens).2)
    (word' : phrase ∈ language') : Serves (first.andThen next) (language * language') tokens := by
  refine serves.follow (fun phrase word => ⟨_, Language.append_mem_mul word word'⟩) ?_
  intro accepted used _ word
  exact (serves' accepted).mono fun _ => Language.append_mem_mul word

theorem sign (symbol : Symbol) (tokens : List Token) :
    Serves (sign symbol) (mark symbol) tokens := by
  cases tokens with
  | nil => exact refused_nil rfl rfl
  | cons token rest =>
    by_cases same : token.lexeme = .symbol symbol
    · exact taken (fun _ => by simp [recognize, expectSymbol, same, outcome]) (by rw [same]; rfl)
    · exact refused (fun _ => by simp [recognize, expectSymbol, same, outcome]) rfl

theorem ending (word : [.symbol symbol] ∈ language) :
    Serves (Recognizer.sign symbol) language tokens := by
  refine (sign symbol tokens).mono ?_
  rintro _ rfl
  exact word

theorem name (tokens : List Token) : Serves name names tokens := by
  match tokens with
  | ⟨.identifier name, _⟩ :: _ => exact taken (fun _ => rfl) ⟨name, rfl⟩
  | [] => exact refused_nil rfl ⟨"x", rfl⟩
  | ⟨.number _, _⟩ :: _ | ⟨.string _, _⟩ :: _ | ⟨.boolean _, _⟩ :: _ | ⟨.keyword _, _⟩ :: _
  | ⟨.symbol _, _⟩ :: _ => exact refused (fun _ => rfl) ⟨"x", rfl⟩

theorem text (tokens : List Token) : Serves (recognize expectString) texts tokens := by
  match tokens with
  | ⟨.string text, _⟩ :: _ => exact taken (fun _ => rfl) ⟨text, rfl⟩
  | [] => exact refused_nil rfl ⟨"", rfl⟩
  | ⟨.number _, _⟩ :: _ | ⟨.identifier _, _⟩ :: _ | ⟨.boolean _, _⟩ :: _ | ⟨.keyword _, _⟩ :: _
  | ⟨.symbol _, _⟩ :: _ => exact refused (fun _ => rfl) ⟨"", rfl⟩

mutual

theorem operand (tiers : Nat) (tokens : List Token) :
    Serves (operand tiers) (words (Level tiers)) tokens := by
  match tiers, tokens with
  | tiers, [] => exact refused_nil (operand_nil tiers) (level_mem tiers)
  | 0, token :: rest =>
    refine congr (fun _ => operand_zero _) ((primary (token :: rest)).mono ?_)
    rintro phrase ⟨tree, derived⟩
    exact ⟨tree, .primary derived⟩
  | tier + 1, token :: rest =>
    refine congr (operand_succ tier token) (mono ((operand tier _).andThen ?_ (nil_mem_chains tier)) ?_)
    · intro accepted
      have fewer := shorter accepted
      exact chain tier _
    · rintro _ ⟨phrase, ⟨tree, derived⟩, following, goesOn, rfl⟩
      exact goesOn phrase ⟨tree, .operand derived⟩
termination_by (tokens.length, tiers + 1)
decreasing_by all_goals grind

theorem chain (tier : Nat) (tokens : List Token) : Serves (chain tier) (chains tier) tokens := by
  match tokens with
  | [] => exact done_nil (by rw [Recognizer.chain, parseChain]; rfl) (nil_mem_chains tier)
  | token :: rest =>
    cases found : infixOf? tier token.lexeme with
    | none => exact done (chain_end found) (nil_mem_chains tier)
    | some infixed =>
      refine cons (chain_sign found) ((operand tier rest).andThen ?_ (nil_mem_chains tier)) ?_
      · intro accepted
        have fewer := shorter accepted
        exact chain tier _
      · intro phrase member
        exact chains_cons found member
termination_by (tokens.length, 0)
decreasing_by all_goals grind

theorem primary (tokens : List Token) : Serves (recognize parsePrimary) (words Primary) tokens := by
  have boolean : [.boolean true] ∈ words Primary := ⟨.literal (.boolean true), .boolean⟩
  match tokens with
  | [] => exact refused_nil (by rw [recognize, parsePrimary.eq_def]; rfl) boolean
  | ⟨.number _, _⟩ :: _ => exact taken (fun _ => by rw [recognize, parsePrimary]; rfl) ⟨_, .number⟩
  | ⟨.string _, _⟩ :: _ => exact taken (fun _ => by rw [recognize, parsePrimary]; rfl) ⟨_, .string⟩
  | ⟨.boolean _, _⟩ :: _ => exact taken (fun _ => by rw [recognize, parsePrimary]; rfl) ⟨_, .boolean⟩
  | ⟨.identifier name, position⟩ :: tokens =>
    have alone : [.identifier name] ∈ words Primary := ⟨_, .identifier⟩
    suffices served : Serves callOrNot {phrase | .identifier name :: phrase ∈ words Primary} tokens
      from cons (primary_identifier name position) served fun _ word => word
    match tokens with
    | [] => exact done_nil rfl alone
    | token :: rest =>
      by_cases opens : token.lexeme = .symbol .leftParen
      · obtain ⟨lexeme, position⟩ := token
        cases opens
        refine cons (fun _ => rfl) (arguments rest) ?_
        rintro _ ⟨phrase, ⟨trees, derived⟩, _, rfl, rfl⟩
        exact ⟨_, .call derived⟩
      · exact done (fun _ => by rw [callOrNot]; exact apart opens) alone
  | ⟨.keyword word, position⟩ :: _ => exact refused (primary_keyword word position) boolean
  | ⟨.symbol symbol, position⟩ :: rest =>
    by_cases opens : symbol = .leftParen
    · cases opens
      refine cons (primary_parentheses position)
        ((operand tierCount rest).andThen (fun _ => sign ..) rfl) ?_
      rintro _ ⟨phrase, ⟨tree, derived⟩, _, rfl, rfl⟩
      exact ⟨_, .parentheses derived⟩
    · exact refused (primary_symbol opens position) boolean
termination_by (tokens.length, 0)
decreasing_by all_goals grind

theorem arguments (tokens : List Token) :
    Serves arguments (words Arguments * mark .rightParen) tokens := by
  have none : [.symbol .rightParen] ∈ words Arguments * mark .rightParen :=
    ⟨[], ⟨_, .none⟩, _, rfl, rfl⟩
  match tokens with
  | [] => exact refused_nil arguments_nil none
  | token :: rest =>
    by_cases closes : token.lexeme = .symbol .rightParen
    · obtain ⟨lexeme, position⟩ := token
      cases closes
      exact taken (arguments_none position) none
    · refine congr (fun _ => arguments_some (apart closes))
        (mono ((operand tierCount (token :: rest)).andThen ?_ close_mem_arguments) ?_)
      · intro accepted
        have fewer := shorter accepted
        exact moreArguments _
      · rintro _ ⟨phrase, ⟨tree, derived⟩, _, ⟨phrases, ⟨trees, others⟩, _, rfl, rfl⟩, rfl⟩
        exact ⟨phrase ++ phrases, ⟨_, .some derived others⟩, _, rfl, List.append_assoc ..⟩
termination_by (tokens.length, tierCount + 2)
decreasing_by all_goals grind

theorem moreArguments (tokens : List Token) :
    Serves (recognize parseMoreArguments) (words MoreArguments * mark .rightParen) tokens := by
  match tokens with
  | [] => exact refused_nil (by rw [moreArguments_close (by simp)]; rfl) close_mem_arguments
  | token :: rest =>
    by_cases goesOn : token.lexeme = .symbol .comma
    · obtain ⟨lexeme, position⟩ := token
      cases goesOn
      refine cons (moreArguments_comma position)
        ((operand tierCount rest).andThen ?_ close_mem_arguments) ?_
      · intro accepted
        have fewer := shorter accepted
        exact moreArguments _
      · rintro _ ⟨phrase, ⟨tree, derived⟩, _, ⟨phrases, ⟨trees, others⟩, _, rfl, rfl⟩, rfl⟩
        exact ⟨_, ⟨_, .some derived others⟩, _, rfl, by simp⟩
    · exact congr (fun _ => moreArguments_close (apart goesOn)) (ending close_mem_arguments)
termination_by (tokens.length, 0)
decreasing_by all_goals grind

end

theorem moreParameters (tokens : List Token) :
    Serves (recognize parseMoreParameters) moreNames tokens := by
  match tokens with
  | [] => exact refused_nil (by rw [moreParameters_close (by simp)]; rfl) close_mem_names
  | token :: rest =>
    by_cases goesOn : token.lexeme = .symbol .comma
    · obtain ⟨lexeme, position⟩ := token
      cases goesOn
      refine cons (moreParameters_comma position) ((name rest).andThen ?_ close_mem_names) ?_
      · intro accepted
        have fewer := shorter accepted
        exact moreParameters _
      · exact fun _ member => moreNames_cons member
    · exact congr (fun _ => moreParameters_close (apart goesOn)) (ending close_mem_names)
termination_by tokens.length
decreasing_by grind

theorem parameters (tokens : List Token) : Serves (recognize parseParameters) lists tokens := by
  match tokens with
  | [] => exact refused_nil rfl close_mem_lists
  | token :: rest =>
    by_cases closes : token.lexeme = .symbol .rightParen
    · obtain ⟨lexeme, position⟩ := token
      cases closes
      exact taken (parameters_none position) close_mem_lists
    · refine congr (fun _ => parameters_some (apart closes))
        (mono ((name _).andThen (fun _ => moreParameters _) close_mem_names) ?_)
      rintro _ ⟨_, ⟨first, rfl⟩, phrase, others, rfl⟩
      obtain ⟨names, same⟩ := others first
      exact ⟨_, ⟨first :: names, rfl⟩, _, rfl, same.symm⟩

theorem value (symbol : Symbol) (tokens : List Token) :
    Serves (expression.andThen (Recognizer.sign symbol)) (values * mark symbol) tokens :=
  (operand tierCount tokens).andThen (fun _ => sign ..) rfl

theorem condition (tokens : List Token) : Serves condition tests tokens := by
  rw [funext condition_eq]
  exact (sign ..).andThen (fun _ => value ..) (value_mem _)

theorem assignmentOrCall (name : String) (tokens : List Token) :
    Serves assignmentOrCall {phrase | .identifier name :: phrase ∈ sentences} tokens := by
  match tokens with
  | [] => exact refused_nil rfl (assign_mem name (value_mem _))
  | token :: rest =>
    obtain ⟨lexeme, position⟩ := token
    by_cases assigns : lexeme = .symbol .assign
    · cases assigns
      exact cons (fun _ => rfl) (value ..) fun _ member => assign_mem name member
    by_cases calls : lexeme = .symbol .leftParen
    · cases calls
      exact cons (fun _ => rfl) ((arguments rest).andThen (fun _ => sign ..) rfl) fun _ =>
        call_mem name
    · refine refused (fun _ => ?_) (assign_mem name (value_mem _))
      rw [Recognizer.assignmentOrCall]
      · exact apart assigns
      · exact apart calls

/-- Before an `else`, too, what is used up is a statement. -/
theorem statement_accepted (accepted : (Recognizer.statement tokens).1 = true)
    (split : tokens = used ++ (Recognizer.statement tokens).2) :
    ∃ tree, Grammar.Statement (lexemes (Recognizer.statement tokens).2).head?
      (lexemes used) tree := by
  cases reading : parseStatement tokens with
  | error rejection =>
    rw [Recognizer.statement, recognize, reading] at accepted
    cases accepted
  | ok parsed =>
    have same : (Recognizer.statement tokens).2 = parsed.rest := by
      rw [Recognizer.statement, recognize, reading]
      rfl
    rw [same] at split ⊢
    obtain ⟨phrase, covered, derived⟩ := parseStatement_accepted reading
    have agree := (congrArg lexemes split).symm.trans covered
    rw [lexemes, List.map_append] at agree
    have same : lexemes used = phrase := List.append_cancel_right agree
    rw [same]
    exact ⟨_, derived⟩

mutual

theorem statement (tokens : List Token) : Serves statement sentences tokens := by
  match tokens with
  | [] => exact refused_nil statement_nil braces_mem
  | ⟨.keyword .letWord, position⟩ :: rest =>
    refine cons (statement_let position) ?_ fun _ => declare_mem
    exact (name rest).andThen (fun _ => (sign ..).andThen (fun _ => value ..) (value_mem _))
      ⟨_, rfl, _, value_mem _, rfl⟩
  | ⟨.keyword .ifWord, position⟩ :: rest =>
    refine cons (statement_if position) ((condition rest).andThen (fun accepted => ?_)
      (sentences_clauses braces_mem)) ?_
    · have fewer := shorter accepted
      exact branches _
    · rintro _ ⟨test, member, clause, goesOn, rfl⟩
      exact goesOn test member
  | ⟨.keyword .whileWord, position⟩ :: rest =>
    refine cons (statement_while position) ((condition rest).andThen (fun accepted => ?_) braces_mem)
      fun _ => loop_mem
    have fewer := shorter accepted
    exact statement _
  | ⟨.keyword .functionWord, position⟩ :: rest =>
    have ending : _ ∈ lists * sentences := ⟨_, close_mem_lists, _, braces_mem, rfl⟩
    have opened : _ ∈ mark .leftParen * (lists * sentences) := ⟨_, rfl, _, ending, rfl⟩
    refine cons (statement_function position) ((name rest).andThen (fun accepted => ?_) opened)
      fun _ => function_mem
    have fewer := shorter accepted
    refine (sign .leftParen _).andThen (fun accepted' => ?_) ending
    have fewer' := shorter accepted'
    refine (parameters _).andThen (fun accepted'' => ?_) braces_mem
    have fewer'' := shorter accepted''
    exact statement _
  | ⟨.keyword .returnWord, position⟩ :: rest =>
    exact cons (statement_return position) (value ..) fun _ => giveBack_mem
  | ⟨.keyword .printWord, position⟩ :: rest =>
    exact cons (statement_print position) ((condition rest).andThen (fun _ => sign ..) rfl) fun _ =>
      print_mem
  | ⟨.keyword .importWord, position⟩ :: rest =>
    have ending : _ ∈ mark .rightParen * mark .semicolon := ⟨_, rfl, _, rfl, rfl⟩
    have path : _ ∈ texts * (mark .rightParen * mark .semicolon) := ⟨_, ⟨"", rfl⟩, _, ending, rfl⟩
    refine cons (statement_import position) ?_ fun _ => import_mem
    exact (sign ..).andThen (fun _ => (text _).andThen
      (fun _ => (sign ..).andThen (fun _ => sign ..) rfl) ending) path
  | ⟨.identifier name, position⟩ :: rest =>
    exact cons (statement_identifier name position) (assignmentOrCall name rest) fun _ word => word
  | ⟨.symbol symbol, position⟩ :: rest =>
    by_cases opens : symbol = .leftBrace
    · cases opens
      refine cons (statement_block position) (block rest) ?_
      rintro _ ⟨body, ⟨trees, derived⟩, _, rfl, rfl⟩
      exact ⟨_, .block derived⟩
    · have strange : starts (.symbol symbol) = false := beq_false_of_ne opens
      exact refused (statement_refused strange) braces_mem
  | ⟨.keyword .elseWord, _⟩ :: _ | ⟨.number _, _⟩ :: _ | ⟨.string _, _⟩ :: _
  | ⟨.boolean _, _⟩ :: _ => exact refused (statement_refused rfl) braces_mem
termination_by (tokens.length, 0)
decreasing_by all_goals grind

/-- What comes after the first statement of an `if`. -/
theorem otherwise (first : Grammar.Statement (lexemes tokens).head? phrase clause) :
    Serves otherwise {following | phrase ++ following ∈ clauses} tokens := by
  have alone (derived : Grammar.Statement none phrase clause) : phrase ++ [] ∈ clauses := by
    rw [List.append_nil]
    exact sentences_clauses ⟨clause, derived⟩
  match tokens with
  | [] => exact done_nil rfl (alone first)
  | ⟨lexeme, position⟩ :: others =>
    by_cases goesOn : lexeme = .keyword .elseWord
    · cases goesOn
      exact cons (fun _ => rfl) (statement others) fun _ => clauses_alternative first
    · refine done (fun _ => ?_) (alone (first.before (by simp)))
      rw [Recognizer.otherwise]
      exact apart goesOn
termination_by (tokens.length, 0)
decreasing_by all_goals grind

/-- What comes after the condition of an `if`. -/
theorem branches (tokens : List Token) :
    Serves (Recognizer.statement.andThen Recognizer.otherwise) clauses tokens := by
  refine (statement tokens).follow (fun phrase word => ⟨[], ?_⟩) fun accepted used split _ => ?_
  · rw [List.append_nil]
    exact sentences_clauses word
  · have fewer := shorter accepted
    obtain ⟨clause, first⟩ := statement_accepted accepted split
    exact otherwise first
termination_by (tokens.length, 1)
decreasing_by all_goals grind

theorem block (tokens : List Token) :
    Serves (recognize parseBlock)
      (words (Statements (some (.symbol .rightBrace))) * mark .rightBrace) tokens := by
  have close : [.symbol .rightBrace] ∈
      words (Statements (some (.symbol .rightBrace))) * mark .rightBrace :=
    ⟨[], ⟨_, .nil⟩, _, rfl, rfl⟩
  match tokens with
  | [] => exact refused_nil block_nil close
  | token :: rest =>
    by_cases closes : token.lexeme = .symbol .rightBrace
    · obtain ⟨lexeme, position⟩ := token
      cases closes
      exact taken (block_end position) close
    · refine congr (block_some closes)
        (mono ((statement (token :: rest)).andThen (fun accepted => ?_) close) ?_)
      · have fewer := shorter accepted
        exact block _
      · rw [← mul_assoc]
        rintro _ ⟨body, member, _, rfl, rfl⟩
        exact ⟨body, statements_cons (by simp) member, _, rfl, rfl⟩
termination_by (tokens.length, 1)
decreasing_by all_goals grind

end

theorem statements (tokens : List Token) : Serves statements (words (Statements none)) tokens := by
  have none : [] ∈ words (Statements none) := ⟨_, .nil⟩
  match tokens with
  | [] => exact done_nil statements_nil none
  | token :: rest =>
    refine congr (statements_some token)
      (mono ((statement (token :: rest)).andThen (fun accepted => ?_) none) ?_)
    · have fewer := shorter accepted
      exact statements _
    · exact fun _ => statements_cons (by simp)
termination_by tokens.length
decreasing_by grind

end Serves

theorem outcome_parseProgram (stream : TokenStream) :
    outcome (fun _ => []) (parseProgram stream) = statements stream.tokens :=
  (outcome_last fun _ => rfl).trans (outcome_parseStatements ..)

end Recognizer

def Token.listed (token : Token) : Option Lexeme × Position := (some token.lexeme, token.position)

namespace TokenStream

/-- The tokens of a stream, the end of the text as the last one. -/
def listed (stream : TokenStream) : List (Option Lexeme × Position) :=
  stream.tokens.map Token.listed ++ [(none, stream.stop)]

/-- The token after the first ones, or the end. -/
theorem listed_split {stream : TokenStream} (split : stream.tokens = used ++ rest) :
    ∃ others, stream.listed = used.map Token.listed ++
      (rest.head?.map Token.lexeme, (rest.head?.map Token.position).getD stream.stop) :: others := by
  rw [listed, split, List.map_append, List.append_assoc]
  cases rest with
  | nil => exact ⟨[], rfl⟩
  | cons token rest => exact ⟨rest.map Token.listed ++ [(none, stream.stop)], rfl⟩

end TokenStream

/-- A list with its end that begins with some elements and a further one, or the end. -/
theorem begins_of_isPrefix {first all : List Lexeme} {mark : Option Lexeme}
    (begins : first.map some ++ [mark] <+: all.map some ++ [none]) :
    ∃ others, all = first ++ others ∧ others.head? = mark := by
  induction first generalizing all with
  | nil =>
    refine ⟨all, rfl, ?_⟩
    cases all with
    | nil => exact (List.cons_prefix_cons.mp begins).1.symm
    | cons lexeme rest => exact (List.cons_prefix_cons.mp begins).1.symm
  | cons lexeme first ih =>
    cases all with
    | nil => cases (List.cons_prefix_cons.mp begins).1
    | cons lexeme' rest =>
      obtain ⟨same, begins⟩ := List.cons_prefix_cons.mp begins
      obtain ⟨others, rfl, head⟩ := ih begins
      cases same
      exact ⟨others, rfl, head⟩

/-- Tokens with given lexemes that begin with a given one. -/
theorem exists_tokens {rest : List Token} {others : List Lexeme}
    (head : others.head? = rest.head?.map Token.lexeme) :
    ∃ tokens, lexemes tokens = others ∧ tokens.head? = rest.head? := by
  cases rest with
  | nil =>
    rw [List.head?_eq_none_iff.mp head]
    exact ⟨[], rfl, rfl⟩
  | cons token rest =>
    obtain ⟨following, rfl⟩ := List.head?_eq_some_iff.mp head
    exact ⟨token :: following.map (⟨·, token.position⟩), by simp [lexemes, Function.comp_def], rfl⟩

namespace Program

/-- Where a stream is refused, the tokens before can be completed. -/
theorem refused_viable (refused : parseProgram stream = .error rejection) :
    ∃ used, stream.tokens = used ++ rejection.rest ∧ ∃ more trees,
      Grammar.Derives (lexemes used ++ more) trees := by
  obtain ⟨used, more, split, ⟨trees, derived⟩, _⟩ := Recognizer.Serves.statements stream.tokens
  rw [← Recognizer.outcome_parseProgram, refused] at split
  exact ⟨used, split, more, trees, derived⟩

/-- Where a stream is refused, no other end of the tokens helps that begins with the same one. -/
theorem refused_hopeless (refused : parseProgram stream = .error rejection)
    (split : stream.tokens = used ++ rejection.rest)
    (head : others.head? = rejection.rest.head?.map Token.lexeme) :
    ¬ Grammar.Derives (lexemes used ++ others) trees := by
  intro derived
  obtain ⟨used', _, split', _, _, again⟩ := Recognizer.Serves.statements stream.tokens
  rw [← Recognizer.outcome_parseProgram, refused] at split' again
  obtain rfl : used = used' := List.append_cancel_right (split.symm.trans split')
  obtain ⟨tokens, rfl, same⟩ := exists_tokens head
  let other : TokenStream := ⟨used ++ tokens, stream.stop⟩
  have covered : lexemes other.tokens = lexemes used ++ lexemes tokens := List.map_append
  rw [← covered] at derived
  obtain ⟨program, success, _⟩ := derived.parsed
  have outcomes := Recognizer.outcome_parseProgram other
  rw [success, again tokens same] at outcomes
  cases outcomes

/-- A stream is refused at the earliest token: the ones before it begin an accepted stream, and no
accepted stream begins with them and it. -/
theorem ofStream_earliest (refused : ofStream stream file = .error fault) :
    ∃ error rejection index token, fault = .reported error ∧ error.phase = .parsing ∧
      parseProgram stream = .error rejection ∧ rejection.rest = stream.tokens.drop index ∧
      stream.listed[index]? = some token ∧ error.span = some (.point token.2) ∧
      (∃ other program, ofStream other file = .ok program ∧
        stream.listed.take index <+: other.listed) ∧
      ∀ other file' program, ofStream other file' = .ok program →
        ¬ (stream.listed.take (index + 1)).map Prod.fst <+: other.listed.map Prod.fst := by
  cases parsed : parseProgram stream with
  | ok program =>
    rw [ofStream_eq_ok.mpr parsed] at refused
    cases refused
  | error rejection =>
    rw [ofStream, parsed] at refused
    cases refused
    obtain ⟨used, split, more, trees, viable⟩ := refused_viable parsed
    obtain ⟨others, shape⟩ := TokenStream.listed_split split
    have measured : (used.map Token.listed).length = used.length := List.length_map _
    refine ⟨_, rejection, used.length, (rejection.rest.head?.map Token.lexeme, _), rfl, rfl, rfl,
      ?_, ?_, rfl, ?_, ?_⟩
    · rw [split, List.drop_left]
    · rw [shape, ← measured, List.getElem?_append_right (Nat.le_refl _), Nat.sub_self]
      rfl
    · let other : TokenStream := ⟨used ++ more.map (⟨·, stream.stop⟩), stream.stop⟩
      have covered : lexemes other.tokens = lexemes used ++ more := by
        simp [other, lexemes, Function.comp_def]
      rw [← covered] at viable
      obtain ⟨program, success, _⟩ := viable.parsed
      refine ⟨other, program, ofStream_eq_ok.mpr success, ?_⟩
      rw [shape, ← measured, List.take_left, TokenStream.listed, List.map_append, List.append_assoc]
      exact List.prefix_append ..
    · intro other file' program success begins
      have derived := parseProgram_derives (ofStream_eq_ok.mp success)
      have first : (stream.listed.take (used.length + 1)).map Prod.fst =
          (lexemes used).map some ++ [rejection.rest.head?.map Token.lexeme] := by
        rw [shape, ← measured, List.take_length_add_append]
        simp [lexemes, Token.listed]
      have whole : other.listed.map Prod.fst = (lexemes other.tokens).map some ++ [none] := by
        simp [TokenStream.listed, lexemes, Token.listed]
      rw [first, whole] at begins
      obtain ⟨following, same, head⟩ := begins_of_isPrefix begins
      rw [same] at derived
      exact refused_hopeless parsed split head derived

/-- The lexemes of `let x = y + (z;`. -/
def unclosedStream : TokenStream :=
  ⟨[.keyword .letWord, .identifier "x", .symbol .assign, .identifier "y", .symbol .plus,
    .symbol .leftParen, .identifier "z", .symbol .semicolon].map (⟨·, default⟩), default⟩

/-- The parenthesis can be closed up to the semicolon and not after it. -/
theorem ofStream_earliest_unclosed :
    ∃ fault, ofStream unclosedStream none = .error fault ∧
      (∃ other program, ofStream other none = .ok program ∧
        unclosedStream.listed.take 7 <+: other.listed) ∧
      ∀ other file program, ofStream other file = .ok program →
        ¬ (unclosedStream.listed.take 8).map Prod.fst <+: other.listed.map Prod.fst := by
  have parsed : parseProgram unclosedStream =
      .error ⟨.kind (.symbol .rightParen), [⟨.symbol .semicolon, default⟩]⟩ := by
    simp [unclosedStream, parseProgram, parseStatements, parseStatement, expectIdentifier,
      expectSymbol, parseExpression, tierCount, parseTiers, parsePrimary, parseChain, infixOf?, bind,
      Except.bind, pure, Except.pure]
  obtain ⟨fault, refused⟩ : ∃ fault, ofStream unclosedStream none = .error fault :=
    ⟨_, by rw [ofStream, parsed]⟩
  obtain ⟨error, rejection, index, token, _, _, parsed', left, _, _, viable, hopeless⟩ :=
    ofStream_earliest refused
  cases parsed.symm.trans parsed'
  have measured : 1 = 8 - index := (congrArg List.length left).trans List.length_drop
  obtain rfl : index = 7 := by omega
  exact ⟨_, refused, viable, hopeless⟩

end Program
end ScriptKit
