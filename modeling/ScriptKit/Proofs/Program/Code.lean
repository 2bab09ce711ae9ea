import ScriptKit.Emission
import ScriptKit.Proofs.Program.Uses
import ScriptKit.Proofs.Token.Lexing

/-!
The emitted text of an expression, and the phrase that it is read as. Both depend on the tree without
spans only. Operators stand in parentheses and between spaces, so the text of each part is followed by
a character that continues none of its lexemes.
-/
namespace ScriptKit

namespace Bare

mutual

def Expression.code : Expression → String
  | .literal value => value.emit
  | .identifier name => name
  | .binary operator left right =>
    "(" ++ left.code ++ " " ++ operator.text ++ " " ++ right.code ++ ")"
  | .logical operator left right =>
    "(" ++ left.code ++ " " ++ operator.text ++ " " ++ right.code ++ ")"
  | .call callee arguments => callee ++ "(" ++ commaSeparated (Expression.codeAll arguments) ++ ")"

def Expression.codeAll : List Expression → List String
  | [] => []
  | expression :: rest => expression.code :: Expression.codeAll rest

end

end Bare

mutual

theorem Expression.emit_eq : (expression : Expression) → expression.emit = expression.bare.code
  | .literal _ value => rfl
  | .identifier _ name => rfl
  | .binary _ operator left right => by
    rw [Expression.emit, left.emit_eq, right.emit_eq]
    rfl
  | .logical _ operator left right => by
    rw [Expression.emit, left.emit_eq, right.emit_eq]
    rfl
  | .call _ callee arguments => by
    rw [Expression.emit, Expression.emitAll_eq arguments]
    rfl

theorem Expression.emitAll_eq : (expressions : List Expression) →
    Expression.emitAll expressions = Bare.Expression.codeAll (Expression.bareAll expressions)
  | [] => rfl
  | expression :: rest => by
    rw [Expression.emitAll, expression.emit_eq, Expression.emitAll_eq rest]
    rfl

end

/-- Phrases with commas between them. -/
def commas : List (List Lexeme) → List Lexeme
  | [] => []
  | first :: others => first ++ others.flatMap (.symbol .comma :: ·)

def Infix.phrase (infixed : Infix) : List Lexeme := (infixed.sign?.map Lexeme.symbol).toList

namespace Bare
variable (spoken : Literal → List Lexeme)

mutual

/-- The phrase of an expression with all operators in parentheses, when each literal is spoken as some
lexemes. -/
def Expression.phrase : Expression → List Lexeme
  | .literal value => spoken value
  | .identifier name => [.identifier name]
  | .binary operator left right =>
    .symbol .leftParen :: (left.phrase ++ ((Infix.binary operator).phrase ++
      (right.phrase ++ [.symbol .rightParen])))
  | .logical operator left right =>
    .symbol .leftParen :: (left.phrase ++ ((Infix.logical operator).phrase ++
      (right.phrase ++ [.symbol .rightParen])))
  | .call callee arguments =>
    .identifier callee :: .symbol .leftParen ::
      (commas (Expression.phraseAll arguments) ++ [.symbol .rightParen])

def Expression.phraseAll : List Expression → List (List Lexeme)
  | [] => []
  | expression :: rest => expression.phrase :: Expression.phraseAll rest

end

end Bare

variable {reader : Reader}

theorem closed_parenOpen : reader.Closes "(" [.symbol .leftParen] := closed_mark .leftParen (by decide)

theorem closed_parenClose : reader.Closes ")" [.symbol .rightParen] := closed_mark .rightParen (by decide)

theorem closed_semicolon : reader.Closes ";" [.symbol .semicolon] := closed_mark .semicolon (by decide)

theorem closed_blank : reader.Closes " " [] :=
  (closed_space (by decide : isSpace ' ' = true)).of_eq rfl

private theorem closed_comma : reader.Closes ", " [.symbol .comma] := by
  have comma : reader.Closes "," [.symbol .comma] := closed_mark .comma (by decide)
  exact (comma.append closed_blank).of_eq rfl

theorem lexes_commaSeparated (text : α → String) (phrase : α → List Lexeme) :
    (items : List α) → (∀ item ∈ items, reader.Reads (text item) (phrase item)) →
    reader.Reads (commaSeparated (items.map text)) (commas (items.map phrase))
  | [], _ => closed_empty.weaken
  | [item], all => by
    have alone := all item List.mem_cons_self
    simpa [commaSeparated, commas] using alone
  | item :: next :: items, all => by
    have others := lexes_commaSeparated text phrase (next :: items) fun item member =>
      all item (List.mem_cons_of_mem _ member)
    have joined := ((all item List.mem_cons_self).close (by decide) closed_comma).before others
    simpa [commaSeparated, commas, String.intercalate_cons_cons] using joined

namespace Bare
variable {spoken : Literal → List Lexeme} {holds : Lexeme → Prop}

theorem Expression.codeAll_eq (trees : List Expression) :
    Expression.codeAll trees = trees.map Expression.code := by
  induction trees with
  | nil => rfl
  | cons tree trees ih => rw [Expression.codeAll, ih, List.map_cons]

theorem Expression.phraseAll_eq (trees : List Expression) :
    Expression.phraseAll spoken trees = trees.map (Expression.phrase spoken) := by
  induction trees with
  | nil => rfl
  | cons tree trees ih =>
    rw [Expression.phraseAll, ih, List.map_cons]

end Bare

theorem Infix.Uses.lexes {infixed : Infix} (used : infixed.Uses holds) :
    reader.Reads infixed.text infixed.phrase := by
  obtain ⟨sign, known, _⟩ := used
  rw [infixed.text_eq known, Infix.phrase, known]
  exact reads_symbol sign

/-- An operator in parentheses, with its operands. -/
theorem lexes_operation {infixed : Infix} {left right : String} {first second : List Lexeme}
    (used : infixed.Uses holds) (before : reader.Reads left first)
    (after : reader.Reads right second) :
    reader.Closes ("(" ++ left ++ " " ++ infixed.text ++ " " ++ right ++ ")")
      (.symbol .leftParen :: (first ++ (infixed.phrase ++ (second ++ [.symbol .rightParen])))) := by
  have opened := (closed_parenOpen.before before).close (by decide) closed_blank
  have joined := (opened.before used.lexes).close (by decide) closed_blank
  have closed := (joined.before after).close (by decide) closed_parenClose
  simpa using closed

theorem lexes_call {trees : List Bare.Expression}
    (named : reader.Reads callee [.identifier callee])
    (all : ∀ tree ∈ trees, reader.Reads tree.code (tree.phrase spoken)) :
    reader.Closes (Bare.Expression.call callee trees).code
      ((Bare.Expression.call callee trees).phrase spoken) := by
  have opened := named.close (by decide) closed_parenOpen
  have listed := opened.before (lexes_commaSeparated _ _ trees all)
  have closed := listed.close (by decide) closed_parenClose
  rw [Bare.Expression.code, Bare.Expression.phrase, Bare.Expression.codeAll_eq,
    Bare.Expression.phraseAll_eq]
  simpa using closed

/-- What the parts of a tree are read as: a name as itself, and each literal as some lexemes. -/
structure Speech (reader : Reader) (holds : Lexeme → Prop) (spoken : Literal → List Lexeme) :
    Prop where
  literal : ∀ value : Literal, holds value.lexeme → reader.Reads value.emit (spoken value)
  name : ∀ name, holds (.identifier name) → reader.Reads name [.identifier name]

section
variable {holds : Lexeme → Prop} {spoken : Literal → List Lexeme}

mutual

/-- The emitted text of an expression is read as its phrase. -/
theorem Bare.Expression.lexes (speech : Speech reader holds spoken) :
    (tree : Bare.Expression) → tree.Uses holds → reader.Reads tree.code (tree.phrase spoken)
  | .literal value, used => speech.literal value used
  | .identifier name, used => speech.name name used
  | .binary _ left right, ⟨used, first, second⟩ =>
    (lexes_operation used (left.lexes speech first) (right.lexes speech second)).weaken
  | .logical _ left right, ⟨used, first, second⟩ =>
    (lexes_operation used (left.lexes speech first) (right.lexes speech second)).weaken
  | .call callee arguments, ⟨named, all⟩ =>
    (lexes_call (speech.name callee named) (Bare.Expression.lexesAll speech arguments all)).weaken

theorem Bare.Expression.lexesAll (speech : Speech reader holds spoken) :
    (trees : List Bare.Expression) → Bare.Expression.AllUse holds trees →
    ∀ tree ∈ trees, reader.Reads tree.code (tree.phrase spoken)
  | [], _ => nofun
  | tree :: trees, ⟨first, others⟩ =>
    List.forall_mem_cons.mpr ⟨tree.lexes speech first, Bare.Expression.lexesAll speech trees others⟩

end

end

theorem closed_line : reader.Closes "\n" [] :=
  (closed_space (by decide : isSpace '\n' = true)).of_eq rfl

private theorem closed_word (word : Keyword) (other : word ≠ .printWord) :
    reader.Closes (word.text ++ " ") [.keyword word] :=
  (reads_keyword word other).close (by decide) closed_blank

theorem closed_else : reader.Closes " else " [.keyword .elseWord] :=
  (closed_blank.append (closed_word .elseWord nofun)).of_eq rfl

theorem closed_braceOpen : reader.Closes "\x7b\n" [.symbol .leftBrace] := by
  have brace : reader.Closes "\x7b" [.symbol .leftBrace] := closed_mark .leftBrace (by decide)
  exact (brace.append closed_line).of_eq rfl

theorem closed_braceClose : reader.Closes "\n\x7d" [.symbol .rightBrace] := by
  have brace : reader.Closes "\x7d" [.symbol .rightBrace] := closed_mark .rightBrace (by decide)
  exact (closed_line.append brace).of_eq rfl

section
variable {name code : String} {phrase : List Lexeme}

theorem closed_assign (named : reader.Reads name [.identifier name])
    (value : reader.Reads code phrase) :
    reader.Closes (name ++ " = " ++ code ++ ";")
      (.identifier name :: .symbol .assign :: (phrase ++ [.symbol .semicolon])) := by
  have sign : reader.Closes " = " [.symbol .assign] :=
    ((closed_blank.before (reads_symbol .assign)).close (by decide) closed_blank).of_eq rfl
  have closed := ((named.close (by decide) sign).before value).close (by decide) closed_semicolon
  simpa using closed

theorem closed_declare (named : reader.Reads name [.identifier name])
    (value : reader.Reads code phrase) :
    reader.Closes ("let " ++ name ++ " = " ++ code ++ ";")
      (.keyword .letWord :: .identifier name :: .symbol .assign ::
        (phrase ++ [.symbol .semicolon])) := by
  have word : reader.Closes "let " [.keyword .letWord] := (closed_word .letWord nofun).of_eq rfl
  have closed := word.append (closed_assign named value)
  simpa [String.append_assoc] using closed

theorem closed_return (argument : reader.Reads code phrase) :
    reader.Closes ("return " ++ code ++ ";")
      (.keyword .returnWord :: (phrase ++ [.symbol .semicolon])) := by
  have word : reader.Closes "return " [.keyword .returnWord] := (closed_word .returnWord nofun).of_eq rfl
  have closed := (word.before argument).close (by decide) closed_semicolon
  simpa using closed

/-- What stands before the body of a conditional or a loop. -/
theorem closed_condition (word : Keyword) (other : word ≠ .printWord)
    (opening : word.text ++ " " ++ "(" = text)
    (test : reader.Reads code phrase) :
    reader.Closes (text ++ code ++ ") ")
      (.keyword word :: .symbol .leftParen :: (phrase ++ [.symbol .rightParen])) := by
  have opened : reader.Closes text [.keyword word, .symbol .leftParen] :=
    ((closed_word word other).append closed_parenOpen).of_eq opening
  have ended : reader.Closes ") " [.symbol .rightParen] :=
    (closed_parenClose.append closed_blank).of_eq rfl
  have closed := (opened.before test).close (by decide) ended
  simpa using closed

theorem closed_if (test : reader.Reads code phrase) :
    reader.Closes ("if (" ++ code ++ ") ")
      (.keyword .ifWord :: .symbol .leftParen :: (phrase ++ [.symbol .rightParen])) :=
  closed_condition .ifWord nofun rfl test

theorem closed_while (test : reader.Reads code phrase) :
    reader.Closes ("while (" ++ code ++ ") ")
      (.keyword .whileWord :: .symbol .leftParen :: (phrase ++ [.symbol .rightParen])) :=
  closed_condition .whileWord nofun rfl test

theorem commas_parameters (names : List String) :
    commas (names.map fun name => [.identifier name]) = Grammar.parameters names := by
  cases names with
  | nil => rfl
  | cons name names =>
    rw [Grammar.parameters_cons, List.map_cons, commas, List.flatMap_map]
    rfl

/-- What stands before the body of a function. -/
theorem closed_header (named : reader.Reads name [.identifier name])
    (all : ∀ parameter ∈ parameters, reader.Reads parameter [.identifier parameter]) :
    reader.Closes ("function " ++ name ++ "(" ++ commaSeparated parameters ++ ") ")
      (.keyword .functionWord :: .identifier name :: .symbol .leftParen ::
        (Grammar.parameters parameters ++ [.symbol .rightParen])) := by
  have word : reader.Closes "function " [.keyword .functionWord] :=
    (closed_word .functionWord nofun).of_eq rfl
  have ended : reader.Closes ") " [.symbol .rightParen] :=
    (closed_parenClose.append closed_blank).of_eq rfl
  have listed : reader.Reads (commaSeparated parameters)
      (Grammar.parameters parameters) := by
    have lexes := lexes_commaSeparated id _ parameters all
    rwa [List.map_id, commas_parameters] at lexes
  have opened := (word.before named).close (by decide) closed_parenOpen
  have closed := (opened.before listed).close (by decide) ended
  simpa using closed

end

end ScriptKit
