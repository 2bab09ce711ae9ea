import ScriptKit.Proofs.Program.Grammar
import ScriptKit.Proofs.Yields

/-!
The grammar with places: which tree, with which spans, stands for a phrase of tokens. What a reading
function gives is always by these rules, so a fact about the trees that are read is proved by going
through the rules and need not look at the reading functions.
-/
namespace ScriptKit

def lexemes (tokens : List Token) : List Lexeme := tokens.map Token.lexeme

@[simp] theorem lexemes_cons (token : Token) (tokens : List Token) :
    lexemes (token :: tokens) = token.lexeme :: lexemes tokens := rfl

theorem lexemes_append (tokens more : List Token) :
    lexemes (tokens ++ more) = lexemes tokens ++ lexemes more :=
  List.map_append

theorem lexemes_eq_cons {tokens : List Token} {lexeme : Lexeme} {phrase : List Lexeme} :
    lexemes tokens = lexeme :: phrase ↔
      ∃ position rest, tokens = ⟨lexeme, position⟩ :: rest ∧ lexemes rest = phrase := by
  constructor
  · intro covered
    obtain ⟨⟨_, position⟩, rest, rfl, rfl, tail⟩ := List.map_eq_cons_iff.mp covered
    exact ⟨position, rest, rfl, tail⟩
  · rintro ⟨_, _, rfl, rfl⟩
    rfl

theorem Grammar.parameters_cons (name : String) (names : List String) :
    parameters (name :: names) =
      .identifier name :: names.flatMap fun other => [.symbol .comma, .identifier other] := by
  induction names generalizing name with
  | nil => rfl
  | cons next names ih =>
    rw [List.flatMap_cons, List.cons_append, List.cons_append, List.nil_append,
      ← ih next]
    rfl

theorem Grammar.mem_parameters (member : lexeme ∈ parameters names) :
    lexeme = .symbol .comma ∨ ∃ name, lexeme = .identifier name := by
  cases names with
  | nil => cases member
  | cons first names =>
    rw [parameters_cons] at member
    rcases List.mem_cons.mp member with rfl | member
    · exact .inr ⟨first, rfl⟩
    · obtain ⟨name, _, member⟩ := List.mem_flatMap.mp member
      rcases List.mem_cons.mp member with rfl | member
      · exact .inl rfl
      · exact .inr ⟨name, List.mem_singleton.mp member⟩

namespace Located

mutual

/-- `Level level phrase stretch tree`: the phrase, from the first place of the stretch to the last, is
an expression of the first binary levels. A parenthesis belongs to the stretch, but not to the span
of the tree. -/
inductive Level : Nat → List Token → Span → Expression → Prop where
  | primary (inner : Primary phrase stretch tree) : Level 0 phrase stretch tree
  | operand (inner : Level level phrase stretch tree) : Level (level + 1) phrase stretch tree
  | join (left : Level (level + 1) first ⟨start, before⟩ tree)
      (found : infixOf? level sign = some infixed)
      (right : Level level second ⟨after, last⟩ other) :
      Level (level + 1) (first ++ ⟨sign, place⟩ :: second) ⟨start, last⟩
        (infixed.apply ⟨start, last⟩ tree other)

inductive Primary : List Token → Span → Expression → Prop where
  | number : Primary [⟨.number value, place⟩] (.point place) (.literal (.point place) (.number value))
  | string : Primary [⟨.string text, place⟩] (.point place) (.literal (.point place) (.string text))
  | boolean :
      Primary [⟨.boolean value, place⟩] (.point place) (.literal (.point place) (.boolean value))
  | identifier : Primary [⟨.identifier name, place⟩] (.point place) (.identifier (.point place) name)
  | call (inner : Arguments phrase trees) :
      Primary (⟨.identifier callee, start⟩ :: ⟨.symbol .leftParen, opening⟩ ::
        (phrase ++ [⟨.symbol .rightParen, close⟩])) ⟨start, close⟩ (.call ⟨start, close⟩ callee trees)
  | parentheses (inner : Level tierCount phrase stretch tree) :
      Primary (⟨.symbol .leftParen, start⟩ :: (phrase ++ [⟨.symbol .rightParen, close⟩]))
        ⟨start, close⟩ tree

inductive Arguments : List Token → List Expression → Prop where
  | none : Arguments [] []
  | some (first : Level tierCount phrase stretch tree) (others : MoreArguments phrases trees) :
      Arguments (phrase ++ phrases) (tree :: trees)

inductive MoreArguments : List Token → List Expression → Prop where
  | none : MoreArguments [] []
  | some (next : Level tierCount phrase stretch tree) (others : MoreArguments phrases trees) :
      MoreArguments (⟨.symbol .comma, comma⟩ :: (phrase ++ phrases)) (tree :: trees)

end

mutual

/-- `Statement next phrase stretch tree`: before the lexeme `next`, if there is one, the phrase is a
statement. A semicolon belongs to the span of the statement that it ends, except to that of a call. -/
inductive Statement : Option Lexeme → List Token → Span → ScriptKit.Statement → Prop where
  | declare (value : Level tierCount phrase stretch tree) :
      Statement next (⟨.keyword .letWord, start⟩ :: ⟨.identifier name, named⟩ ::
        ⟨.symbol .assign, sign⟩ :: (phrase ++ [⟨.symbol .semicolon, close⟩])) ⟨start, close⟩
        (.declare ⟨start, close⟩ name tree)
  | assign (value : Level tierCount phrase stretch tree) :
      Statement next (⟨.identifier name, start⟩ :: ⟨.symbol .assign, sign⟩ ::
        (phrase ++ [⟨.symbol .semicolon, close⟩])) ⟨start, close⟩ (.assign ⟨start, close⟩ name tree)
  | call (inner : Arguments phrase trees) :
      Statement next (⟨.identifier callee, start⟩ :: ⟨.symbol .leftParen, opening⟩ ::
        (phrase ++ [⟨.symbol .rightParen, closing⟩, ⟨.symbol .semicolon, close⟩])) ⟨start, close⟩
        (.call ⟨start, closing⟩ callee trees)
  | giveBack (argument : Level tierCount phrase stretch tree) :
      Statement next (⟨.keyword .returnWord, start⟩ :: (phrase ++ [⟨.symbol .semicolon, close⟩]))
        ⟨start, close⟩ (.giveBack ⟨start, close⟩ tree)
  | print (argument : Level tierCount phrase stretch tree) :
      Statement next (⟨.keyword .printWord, start⟩ :: ⟨.symbol .leftParen, opening⟩ ::
        (phrase ++ [⟨.symbol .rightParen, closing⟩, ⟨.symbol .semicolon, close⟩])) ⟨start, close⟩
        (.print ⟨start, close⟩ tree)
  | importFile :
      Statement next [⟨.keyword .importWord, start⟩, ⟨.symbol .leftParen, opening⟩,
        ⟨.string path, middle⟩, ⟨.symbol .rightParen, closing⟩, ⟨.symbol .semicolon, close⟩]
        ⟨start, close⟩ (.importFile ⟨start, close⟩ path)
  | block (body : Statements (some (.symbol .rightBrace)) phrase trees) :
      Statement next (⟨.symbol .leftBrace, start⟩ :: (phrase ++ [⟨.symbol .rightBrace, close⟩]))
        ⟨start, close⟩ (.block ⟨start, close⟩ trees)
  | branch (test : Level tierCount condition stretch tree)
      (consequent : Statement next phrase ⟨first, last⟩ clause)
      (closed : next ≠ some (.keyword .elseWord)) :
      Statement next (⟨.keyword .ifWord, start⟩ :: ⟨.symbol .leftParen, opening⟩ ::
        (condition ++ ⟨.symbol .rightParen, closing⟩ :: phrase)) ⟨start, last⟩
        (.branch ⟨start, last⟩ tree clause none)
  | alternative (test : Level tierCount condition stretch tree)
      (consequent : Statement (some (.keyword .elseWord)) phrase stretch' clause)
      (alternate : Statement next phrase' ⟨first, last⟩ other) :
      Statement next (⟨.keyword .ifWord, start⟩ :: ⟨.symbol .leftParen, opening⟩ ::
        (condition ++ ⟨.symbol .rightParen, closing⟩ ::
          (phrase ++ ⟨.keyword .elseWord, between⟩ :: phrase'))) ⟨start, last⟩
        (.branch ⟨start, last⟩ tree clause (some other))
  | loop (test : Level tierCount condition stretch tree)
      (body : Statement next phrase ⟨first, last⟩ clause) :
      Statement next (⟨.keyword .whileWord, start⟩ :: ⟨.symbol .leftParen, opening⟩ ::
        (condition ++ ⟨.symbol .rightParen, closing⟩ :: phrase)) ⟨start, last⟩
        (.loop ⟨start, last⟩ tree clause)
  | function (listed : lexemes list = Grammar.parameters names)
      (body : Statement next phrase ⟨first, last⟩ clause) :
      Statement next (⟨.keyword .functionWord, start⟩ :: ⟨.identifier name, named⟩ ::
        ⟨.symbol .leftParen, opening⟩ :: (list ++ ⟨.symbol .rightParen, closing⟩ :: phrase))
        ⟨start, last⟩ (.function ⟨start, last⟩ name names clause)

inductive Statements : Option Lexeme → List Token → List ScriptKit.Statement → Prop where
  | nil : Statements next [] []
  | cons (first : Statement ((lexemes phrases).head?.or next) phrase stretch tree)
      (others : Statements next phrases trees) :
      Statements next (phrase ++ phrases) (tree :: trees)

end

/-- The stretch is from the first of the tokens to the last. -/
structure Bounds (phrase : List Token) (stretch : Span) : Prop where
  first : phrase.head?.map Token.position = some stretch.first
  last : phrase.getLast?.map Token.position = some stretch.last

namespace Bounds

theorem single (token : Token) : Bounds [token] (.point token.position) := ⟨rfl, rfl⟩

theorem append (one : Bounds phrase ⟨start, before⟩) (two : Bounds phrase' ⟨after, stop⟩)
    (gap : List Token) : Bounds (phrase ++ (gap ++ phrase')) ⟨start, stop⟩ := by
  obtain ⟨token, head, starts⟩ := Option.map_eq_some_iff.mp one.first
  obtain ⟨token', final, ends⟩ := Option.map_eq_some_iff.mp two.last
  refine ⟨?_, ?_⟩
  · rw [List.head?_append, head, Option.some_or, Option.map_some, starts]
  · rw [List.getLast?_append, List.getLast?_append, final, Option.some_or, Option.some_or,
      Option.map_some, ends]

theorem cons (token : Token) (two : Bounds phrase ⟨after, stop⟩) (gap : List Token) :
    Bounds (token :: (gap ++ phrase)) ⟨token.position, stop⟩ :=
  (single token).append two gap

end Bounds

theorem Primary.bounds : Primary phrase stretch tree → Bounds phrase stretch
  | .number | .string | .boolean | .identifier => .single _
  | .call _ => .cons _ (.single _) (_ :: _)
  | .parentheses _ => .cons _ (.single _) _

theorem Level.bounds : Level level phrase stretch tree → Bounds phrase stretch
  | .primary inner => inner.bounds
  | .operand inner => inner.bounds
  | .join left _ right => left.bounds.append right.bounds [_]

theorem Level.start_eq (located : Level level phrase ⟨start, last⟩ tree)
    (split : token :: tokens = phrase ++ rest) : token.position = start := by
  have head := located.bounds.first
  cases phrase with
  | nil => cases head
  | cons first phrase =>
    cases split
    exact Option.some.inj head

theorem Statement.bounds : Statement next phrase stretch tree → Bounds phrase stretch
  | .declare _ => .cons _ (.single _) (_ :: _ :: _)
  | .assign _ => .cons _ (.single _) (_ :: _)
  | .call _ | .print _ => .cons _ (.cons _ (.single _) []) (_ :: _)
  | .giveBack _ | .block _ => .cons _ (.single _) _
  | .importFile => ⟨rfl, rfl⟩
  | .branch _ consequent _ => .cons _ (.cons _ consequent.bounds []) (_ :: _)
  | .alternative _ _ alternate =>
    .cons _ (.cons _ (.cons _ alternate.bounds []) _) (_ :: _)
  | .loop _ body => .cons _ (.cons _ body.bounds []) (_ :: _)
  | .function _ body => .cons _ (.cons _ body.bounds []) (_ :: _ :: _)

/-- The tokens start with the phrase, and the rest follows it. -/
def Takes (tokens phrase rest : List Token) : Prop := tokens = phrase ++ rest

namespace Takes

theorem word (token : Token) (rest : List Token) : Takes (token :: rest) [token] rest := rfl

theorem next (first : Takes tokens [token] middle) (others : Takes middle phrase rest) :
    Takes tokens (token :: phrase) rest := by
  rw [Takes, first, others]
  rfl

theorem cons (token : Token) (others : Takes tokens phrase rest) :
    Takes (token :: tokens) (token :: phrase) rest :=
  (word token tokens).next others

theorem trans (first : Takes tokens phrase middle) (second : Takes middle phrase' rest) :
    Takes tokens (phrase ++ phrase') rest := by
  rw [Takes, first, second, List.append_assoc]

end Takes

section expecting

private theorem expectSymbol_takes (success : expectSymbol symbol tokens = .ok parsed) :
    Takes tokens [⟨.symbol symbol, parsed.last⟩] parsed.rest := by
  unfold expectSymbol at success
  split at success
  · cases success
  · rename_i token rest
    split at success
    · rename_i same
      cases success
      rw [← same]
      exact .word token rest
    · cases success

private theorem expectIdentifier_takes (success : expectIdentifier tokens = .ok parsed) :
    Takes tokens [⟨.identifier parsed.value, parsed.last⟩] parsed.rest := by
  unfold expectIdentifier at success
  split at success
  · cases success
    rfl
  · cases success

private theorem expectString_takes (success : expectString tokens = .ok parsed) :
    Takes tokens [⟨.string parsed.value, parsed.last⟩] parsed.rest := by
  unfold expectString at success
  split at success
  · cases success
    rfl
  · cases success

end expecting

mutual

theorem parseTiers_located {tiers : Nat} {tokens : List Token}
    {parsed : Parsed Expression tokens.length} (success : parseTiers tiers tokens = .ok parsed) :
    ∃ phrase start, Takes tokens phrase parsed.rest ∧
      Level tiers phrase ⟨start, parsed.last⟩ parsed.value := by
  match tiers, tokens with
  | 0, tokens =>
    rw [parseTiers] at success
    obtain ⟨phrase, start, taken, inner⟩ := parsePrimary_located success
    exact ⟨phrase, start, taken, .primary inner⟩
  | tier + 1, [] =>
    rw [parseTiers] at success
    cases success
  | tier + 1, token :: rest =>
    rw [parseTiers] at success
    obtain ⟨left, first, success⟩ := bind_eq_ok.mp success
    obtain ⟨chain, others, success⟩ := bind_eq_ok.mp success
    cases success
    obtain ⟨phrase, start, taken, inner⟩ := parseTiers_located first
    cases inner.start_eq taken
    obtain ⟨phrase, taken, joined⟩ := parseChain_located others taken (.operand inner)
    exact ⟨phrase, _, taken, joined⟩
termination_by (tokens.length, tiers + 1)
decreasing_by all_goals grind

/-- The chain goes on from a phrase that was read before it. -/
theorem parseChain_located {tier : Nat} {start last : Position} {left : Expression}
    {tokens whole before : List Token} {parsed : Parsed Expression (tokens.length + 1)}
    (success : parseChain tier start left last tokens = .ok parsed)
    (taken : Takes whole before tokens) (read : Level (tier + 1) before ⟨start, last⟩ left) :
    ∃ phrase, Takes whole phrase parsed.rest ∧
      Level (tier + 1) phrase ⟨start, parsed.last⟩ parsed.value := by
  match tokens with
  | [] =>
    rw [parseChain] at success
    cases success
    exact ⟨before, taken, read⟩
  | token :: rest =>
    rw [parseChain] at success
    split at success
    · cases success
      exact ⟨before, taken, read⟩
    · rename_i infixed found
      obtain ⟨right, second, success⟩ := bind_eq_ok.mp success
      obtain ⟨chain, others, success⟩ := bind_eq_ok.mp success
      cases success
      obtain ⟨phrase, after, taken', operand⟩ := parseTiers_located second
      have joined := taken.trans (.cons token taken')
      exact (parseChain_located others joined (.join read found operand) :)
termination_by (tokens.length, 0)
decreasing_by
  · exact .left _ _ (Nat.lt_succ_self _)
  · exact .left _ _ (Nat.lt_succ_of_lt right.within)

theorem parsePrimary_located {tokens : List Token} {parsed : Parsed Expression tokens.length}
    (success : parsePrimary tokens = .ok parsed) :
    ∃ phrase start, Takes tokens phrase parsed.rest ∧
      Primary phrase ⟨start, parsed.last⟩ parsed.value := by
  rw [parsePrimary.eq_def] at success
  split at success
  · cases success
    exact ⟨_, _, .word _ _, .number⟩
  · cases success
    exact ⟨_, _, .word _ _, .string⟩
  · cases success
    exact ⟨_, _, .word _ _, .boolean⟩
  · obtain ⟨arguments, inner, success⟩ := bind_eq_ok.mp success
    cases success
    obtain ⟨phrase, _, taken, closed, inner⟩ := parseArguments_located inner
    exact ⟨_, _, .cons _ (.cons _ (taken.trans closed)), .call inner⟩
  · cases success
    exact ⟨_, _, .word _ _, .identifier⟩
  · obtain ⟨inner, opened, success⟩ := bind_eq_ok.mp success
    obtain ⟨close, closed, success⟩ := bind_eq_ok.mp success
    cases success
    obtain ⟨phrase, start, taken, inner⟩ := parseTiers_located opened
    exact ⟨_, _, .cons _ (taken.trans (expectSymbol_takes closed)), .parentheses inner⟩
  · cases success
termination_by (tokens.length, 0)
decreasing_by all_goals grind

theorem parseArguments_located {tokens : List Token}
    {parsed : Parsed (List Expression) tokens.length}
    (success : parseArguments tokens = .ok parsed) :
    ∃ phrase middle, Takes tokens phrase middle ∧
      Takes middle [⟨.symbol .rightParen, parsed.last⟩] parsed.rest ∧
      Arguments phrase parsed.value := by
  rw [parseArguments.eq_def] at success
  split at success
  · cases success
    exact ⟨[], _, rfl, .word _ _, .none⟩
  · obtain ⟨first, head, success⟩ := bind_eq_ok.mp success
    obtain ⟨others, tail, success⟩ := bind_eq_ok.mp success
    cases success
    obtain ⟨phrase, start, taken, head⟩ := parseTiers_located head
    obtain ⟨phrases, _, taken', closed, tail⟩ := parseMoreArguments_located tail
    exact ⟨_, _, taken.trans taken', closed, .some head tail⟩
termination_by (tokens.length, tierCount + 2)
decreasing_by all_goals grind

theorem parseMoreArguments_located {tokens : List Token}
    {parsed : Parsed (List Expression) tokens.length}
    (success : parseMoreArguments tokens = .ok parsed) :
    ∃ phrase middle, Takes tokens phrase middle ∧
      Takes middle [⟨.symbol .rightParen, parsed.last⟩] parsed.rest ∧
      MoreArguments phrase parsed.value := by
  rw [parseMoreArguments.eq_def] at success
  split at success
  · obtain ⟨next, head, success⟩ := bind_eq_ok.mp success
    obtain ⟨others, tail, success⟩ := bind_eq_ok.mp success
    cases success
    obtain ⟨phrase, start, taken, head⟩ := parseTiers_located head
    obtain ⟨phrases, _, taken', closed, tail⟩ := parseMoreArguments_located tail
    exact ⟨_, _, .cons _ (taken.trans taken'), closed, .some head tail⟩
  · obtain ⟨close, closed, success⟩ := bind_eq_ok.mp success
    cases success
    exact ⟨[], _, rfl, expectSymbol_takes closed, .none⟩
termination_by (tokens.length, 0)
decreasing_by all_goals grind

end

private theorem parseCondition_located (success : parseCondition tokens = .ok parsed) :
    ∃ opening inner phrase stretch middle,
      Takes tokens [⟨.symbol .leftParen, opening⟩] inner ∧ Takes inner phrase middle ∧
      Takes middle [⟨.symbol .rightParen, parsed.last⟩] parsed.rest ∧
      Level tierCount phrase stretch parsed.value := by
  obtain ⟨opening, opened, success⟩ := bind_eq_ok.mp success
  obtain ⟨test, read, success⟩ := bind_eq_ok.mp success
  obtain ⟨close, closed, success⟩ := bind_eq_ok.mp success
  cases success
  obtain ⟨phrase, start, taken, inner⟩ := parseTiers_located read
  exact ⟨_, _, _, _, _, expectSymbol_takes opened, taken, expectSymbol_takes closed, inner⟩

private theorem parseMoreParameters_located {tokens : List Token}
    {parsed : Parsed (List String) tokens.length}
    (success : parseMoreParameters tokens = .ok parsed) :
    ∃ list middle, Takes tokens list middle ∧
      Takes middle [⟨.symbol .rightParen, parsed.last⟩] parsed.rest ∧
      lexemes list = parsed.value.flatMap fun name => [.symbol .comma, .identifier name] := by
  rw [parseMoreParameters.eq_def] at success
  split at success
  · obtain ⟨next, head, success⟩ := bind_eq_ok.mp success
    obtain ⟨others, tail, success⟩ := bind_eq_ok.mp success
    cases success
    obtain ⟨list, _, taken, closed, listed⟩ := parseMoreParameters_located tail
    refine ⟨_, _, .cons _ ((expectIdentifier_takes head).next taken), closed, ?_⟩
    rw [List.flatMap_cons, ← listed]
    rfl
  · obtain ⟨close, closed, success⟩ := bind_eq_ok.mp success
    cases success
    exact ⟨[], _, rfl, expectSymbol_takes closed, rfl⟩
termination_by tokens.length
decreasing_by grind

private theorem parseParameters_located (success : parseParameters tokens = .ok parsed) :
    ∃ list middle, Takes tokens list middle ∧
      Takes middle [⟨.symbol .rightParen, parsed.last⟩] parsed.rest ∧
      lexemes list = Grammar.parameters parsed.value := by
  unfold parseParameters at success
  split at success
  · cases success
    exact ⟨[], _, rfl, .word _ _, rfl⟩
  · obtain ⟨first, head, success⟩ := bind_eq_ok.mp success
    obtain ⟨others, tail, success⟩ := bind_eq_ok.mp success
    cases success
    obtain ⟨list, _, taken, closed, listed⟩ := parseMoreParameters_located tail
    refine ⟨_, _, (expectIdentifier_takes head).next taken, closed, ?_⟩
    rw [Grammar.parameters_cons, ← listed]
    rfl

mutual

theorem parseStatement_located {tokens : List Token}
    {parsed : Parsed ScriptKit.Statement tokens.length}
    (success : parseStatement tokens = .ok parsed) :
    ∃ phrase start, Takes tokens phrase parsed.rest ∧
      Statement (lexemes parsed.rest).head? phrase ⟨start, parsed.last⟩ parsed.value := by
  rw [parseStatement.eq_def] at success
  split at success
  -- let
  · obtain ⟨name, named, success⟩ := bind_eq_ok.mp success
    obtain ⟨sign, signed, success⟩ := bind_eq_ok.mp success
    obtain ⟨value, read, success⟩ := bind_eq_ok.mp success
    obtain ⟨close, closed, success⟩ := bind_eq_ok.mp success
    cases success
    obtain ⟨phrase, _, taken, value⟩ := parseTiers_located read
    exact ⟨_, _, .cons _ ((expectIdentifier_takes named).next ((expectSymbol_takes signed).next
      (taken.trans (expectSymbol_takes closed)))), .declare value⟩
  -- if
  · obtain ⟨test, tested, success⟩ := bind_eq_ok.mp success
    obtain ⟨consequent, first, success⟩ := bind_eq_ok.mp success
    obtain ⟨_, _, _, _, _, opened, taken, closed, test⟩ := parseCondition_located tested
    obtain ⟨phrase, _, taken', inner⟩ := parseStatement_located first
    split at success
    · rename_i following
      obtain ⟨alternate, second, success⟩ := bind_eq_ok.mp success
      cases success
      obtain ⟨phrase', _, taken'', other⟩ := parseStatement_located second
      rw [following] at taken' inner
      exact ⟨_, _, .cons _ (opened.next (taken.trans (closed.next (taken'.trans (.cons _ taken''))))),
        .alternative test inner other⟩
    · rename_i following
      cases success
      refine ⟨_, _, .cons _ (opened.next (taken.trans (closed.next taken'))), .branch test inner ?_⟩
      intro present
      obtain ⟨_, same⟩ := List.head?_eq_some_iff.mp present
      obtain ⟨position, others, split, _⟩ := lexemes_eq_cons.mp same
      exact following position others split
  -- while
  · obtain ⟨test, tested, success⟩ := bind_eq_ok.mp success
    obtain ⟨body, first, success⟩ := bind_eq_ok.mp success
    cases success
    obtain ⟨_, _, _, _, _, opened, taken, closed, test⟩ := parseCondition_located tested
    obtain ⟨phrase, _, taken', inner⟩ := parseStatement_located first
    exact ⟨_, _, .cons _ (opened.next (taken.trans (closed.next taken'))), .loop test inner⟩
  -- function
  · obtain ⟨name, named, success⟩ := bind_eq_ok.mp success
    obtain ⟨opening, opened, success⟩ := bind_eq_ok.mp success
    obtain ⟨parameters, listed, success⟩ := bind_eq_ok.mp success
    obtain ⟨body, first, success⟩ := bind_eq_ok.mp success
    cases success
    obtain ⟨list, _, taken, closed, listed⟩ := parseParameters_located listed
    obtain ⟨phrase, _, taken', inner⟩ := parseStatement_located first
    exact ⟨_, _, .cons _ ((expectIdentifier_takes named).next ((expectSymbol_takes opened).next
      (taken.trans (closed.next taken')))), .function listed inner⟩
  -- return
  · obtain ⟨argument, read, success⟩ := bind_eq_ok.mp success
    obtain ⟨close, closed, success⟩ := bind_eq_ok.mp success
    cases success
    obtain ⟨phrase, _, taken, argument⟩ := parseTiers_located read
    exact ⟨_, _, .cons _ (taken.trans (expectSymbol_takes closed)), .giveBack argument⟩
  -- print
  · obtain ⟨argument, read, success⟩ := bind_eq_ok.mp success
    obtain ⟨close, closed, success⟩ := bind_eq_ok.mp success
    cases success
    obtain ⟨_, _, _, _, _, opened, taken, shut, argument⟩ := parseCondition_located read
    exact ⟨_, _, .cons _ (opened.next (taken.trans (shut.next (expectSymbol_takes closed)))),
      .print argument⟩
  -- import
  · obtain ⟨opening, opened, success⟩ := bind_eq_ok.mp success
    obtain ⟨path, read, success⟩ := bind_eq_ok.mp success
    obtain ⟨closing, shut, success⟩ := bind_eq_ok.mp success
    obtain ⟨close, closed, success⟩ := bind_eq_ok.mp success
    cases success
    exact ⟨_, _, .cons _ ((expectSymbol_takes opened).next ((expectString_takes read).next
      ((expectSymbol_takes shut).next (expectSymbol_takes closed)))), .importFile⟩
  -- assignment
  · obtain ⟨value, read, success⟩ := bind_eq_ok.mp success
    obtain ⟨close, closed, success⟩ := bind_eq_ok.mp success
    cases success
    obtain ⟨phrase, _, taken, value⟩ := parseTiers_located read
    exact ⟨_, _, .cons _ (.cons _ (taken.trans (expectSymbol_takes closed))), .assign value⟩
  -- call
  · obtain ⟨arguments, read, success⟩ := bind_eq_ok.mp success
    obtain ⟨close, closed, success⟩ := bind_eq_ok.mp success
    cases success
    obtain ⟨phrase, _, taken, shut, inner⟩ := parseArguments_located read
    exact ⟨_, _, .cons _ (.cons _ (taken.trans (shut.next (expectSymbol_takes closed)))),
      .call inner⟩
  · cases success
  -- block
  · obtain ⟨body, read, success⟩ := bind_eq_ok.mp success
    cases success
    obtain ⟨phrase, _, taken, closed, body⟩ := parseBlock_located read
    exact ⟨_, _, .cons _ (taken.trans closed), .block body⟩
  · cases success
termination_by (tokens.length, 0)
decreasing_by all_goals grind

theorem parseBlock_located {tokens : List Token}
    {parsed : Parsed (List ScriptKit.Statement) tokens.length}
    (success : parseBlock tokens = .ok parsed) :
    ∃ phrase middle, Takes tokens phrase middle ∧
      Takes middle [⟨.symbol .rightBrace, parsed.last⟩] parsed.rest ∧
      Statements (some (.symbol .rightBrace)) phrase parsed.value := by
  rw [parseBlock.eq_def] at success
  split at success
  · cases success
  · cases success
    exact ⟨[], _, rfl, .word _ _, .nil⟩
  · obtain ⟨first, head, success⟩ := bind_eq_ok.mp success
    obtain ⟨others, tail, success⟩ := bind_eq_ok.mp success
    cases success
    obtain ⟨phrase, start, taken, head⟩ := parseStatement_located head
    obtain ⟨phrases, _, taken', closed, tail⟩ := parseBlock_located tail
    rw [taken', lexemes_append, List.head?_append, closed] at head
    exact ⟨_, _, taken.trans taken', closed, .cons head tail⟩
termination_by (tokens.length, 1)
decreasing_by all_goals grind

end

theorem parseStatements_located {last : Position} {tokens : List Token}
    {parsed : List ScriptKit.Statement × Position}
    (success : parseStatements last tokens = .ok parsed) : Statements none tokens parsed.1 := by
  rw [parseStatements.eq_def] at success
  split at success
  · cases success
    exact .nil
  · obtain ⟨first, head, success⟩ := bind_eq_ok.mp success
    obtain ⟨others, tail, success⟩ := bind_eq_ok.mp success
    cases success
    obtain ⟨phrase, start, taken, head⟩ := parseStatement_located head
    have last : Statement ((lexemes first.rest).head?.or none) phrase ⟨start, first.last⟩
        first.value := by
      rwa [Option.or_none]
    have all := Statements.cons last (parseStatements_located tail)
    rwa [← taken] at all
termination_by tokens.length
decreasing_by grind

end Located
end ScriptKit
