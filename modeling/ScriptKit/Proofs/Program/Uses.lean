import ScriptKit.Proofs.Program.Accepted

/-!
The lexemes that a syntax tree is made of. Whatever holds of all lexemes of a phrase holds of those of
its tree; only punctuation leaves no trace in it.
-/
namespace ScriptKit

def Literal.lexeme : Literal → Lexeme
  | .boolean value => .boolean value
  | .number value => .number value
  | .string value => .string value

namespace Infix

def text : Infix → String
  | .binary operator => operator.text
  | .logical operator => operator.text

/-- The sign of an operator of the language. -/
def sign? : Infix → Option Symbol
  | .binary .equal => some .equals
  | .binary .notEqual => some .notEquals
  | .binary .greater => some .greater
  | .binary .greaterEqual => some .greaterEquals
  | .binary .less => some .less
  | .binary .lessEqual => some .lessEquals
  | .binary .plus => some .plus
  | .binary .minus => some .minus
  | .binary .times => some .multiply
  | .binary .divide => some .divide
  | .binary .modulo => some .modulo
  | .logical .and => some .and
  | .logical .or => some .or
  | .binary (.unknown _) | .logical (.unknown _) => none

def Uses (holds : Lexeme → Prop) (infixed : Infix) : Prop :=
  ∃ sign, infixed.sign? = some sign ∧ holds (.symbol sign)

theorem text_eq (known : sign? infixed = some sign) : infixed.text = sign.text := by
  cases infixed with
  | binary operator => cases operator <;> cases known <;> rfl
  | logical operator => cases operator <;> cases known <;> rfl

end Infix

namespace Bare

mutual

def Expression.Uses (holds : Lexeme → Prop) : Expression → Prop
  | .literal value => holds value.lexeme
  | .identifier name => holds (.identifier name)
  | .binary operator left right =>
    (Infix.binary operator).Uses holds ∧ left.Uses holds ∧ right.Uses holds
  | .logical operator left right =>
    (Infix.logical operator).Uses holds ∧ left.Uses holds ∧ right.Uses holds
  | .call callee arguments => holds (.identifier callee) ∧ Expression.AllUse holds arguments

def Expression.AllUse (holds : Lexeme → Prop) : List Expression → Prop
  | [] => True
  | expression :: rest => expression.Uses holds ∧ Expression.AllUse holds rest

end

mutual

def Statement.Uses (holds : Lexeme → Prop) : Statement → Prop
  | .declare name value =>
    holds (.keyword .letWord) ∧ holds (.identifier name) ∧ value.Uses holds
  | .assign name value => holds (.identifier name) ∧ value.Uses holds
  | .block body => Statement.AllUse holds body
  | .branch test consequent none =>
    holds (.keyword .ifWord) ∧ test.Uses holds ∧ consequent.Uses holds
  | .branch test consequent (some alternate) =>
    holds (.keyword .ifWord) ∧ test.Uses holds ∧ consequent.Uses holds ∧
      holds (.keyword .elseWord) ∧ alternate.Uses holds
  | .loop test body => holds (.keyword .whileWord) ∧ test.Uses holds ∧ body.Uses holds
  | .function name parameters body =>
    holds (.keyword .functionWord) ∧ holds (.identifier name) ∧
      (∀ parameter ∈ parameters, holds (.identifier parameter)) ∧ body.Uses holds
  | .giveBack argument => holds (.keyword .returnWord) ∧ argument.Uses holds
  | .print argument => holds (.keyword .printWord) ∧ argument.Uses holds
  | .importFile path => holds (.keyword .importWord) ∧ holds (.string path)
  | .call callee arguments => holds (.identifier callee) ∧ Expression.AllUse holds arguments

def Statement.AllUse (holds : Lexeme → Prop) : List Statement → Prop
  | [] => True
  | statement :: rest => statement.Uses holds ∧ Statement.AllUse holds rest

end

end Bare

section
variable {holds holds' : Lexeme → Prop}

theorem Infix.Uses.and {infixed : Infix} : infixed.Uses holds → infixed.Uses holds' →
    infixed.Uses fun lexeme => holds lexeme ∧ holds' lexeme := by
  rintro ⟨sign, known, one⟩ ⟨sign', known', two⟩
  rw [known] at known'
  obtain rfl := Option.some.inj known'
  exact ⟨sign, known, one, two⟩

namespace Bare

mutual

theorem Expression.uses_and : (tree : Expression) → tree.Uses holds → tree.Uses holds' →
    tree.Uses fun lexeme => holds lexeme ∧ holds' lexeme
  | .literal _, one, two => ⟨one, two⟩
  | .identifier _, one, two => ⟨one, two⟩
  | .binary _ left right, one, two =>
    ⟨one.1.and two.1, left.uses_and one.2.1 two.2.1, right.uses_and one.2.2 two.2.2⟩
  | .logical _ left right, one, two =>
    ⟨one.1.and two.1, left.uses_and one.2.1 two.2.1, right.uses_and one.2.2 two.2.2⟩
  | .call _ arguments, one, two =>
    ⟨⟨one.1, two.1⟩, Expression.allUse_and arguments one.2 two.2⟩

theorem Expression.allUse_and : (trees : List Expression) → Expression.AllUse holds trees →
    Expression.AllUse holds' trees →
    Expression.AllUse (fun lexeme => holds lexeme ∧ holds' lexeme) trees
  | [], _, _ => trivial
  | tree :: trees, one, two =>
    ⟨tree.uses_and one.1 two.1, Expression.allUse_and trees one.2 two.2⟩

end

mutual

theorem Statement.uses_and : (tree : Statement) → tree.Uses holds → tree.Uses holds' →
    tree.Uses fun lexeme => holds lexeme ∧ holds' lexeme
  | .declare _ value, one, two =>
    ⟨⟨one.1, two.1⟩, ⟨one.2.1, two.2.1⟩, value.uses_and one.2.2 two.2.2⟩
  | .assign _ value, one, two => ⟨⟨one.1, two.1⟩, value.uses_and one.2 two.2⟩
  | .block body, one, two => Statement.allUse_and body one two
  | .branch test consequent none, one, two =>
    ⟨⟨one.1, two.1⟩, test.uses_and one.2.1 two.2.1, consequent.uses_and one.2.2 two.2.2⟩
  | .branch test consequent (some alternate), one, two =>
    ⟨⟨one.1, two.1⟩, test.uses_and one.2.1 two.2.1, consequent.uses_and one.2.2.1 two.2.2.1,
      ⟨one.2.2.2.1, two.2.2.2.1⟩, alternate.uses_and one.2.2.2.2 two.2.2.2.2⟩
  | .loop test body, one, two =>
    ⟨⟨one.1, two.1⟩, test.uses_and one.2.1 two.2.1, body.uses_and one.2.2 two.2.2⟩
  | .function _ _ body, one, two =>
    ⟨⟨one.1, two.1⟩, ⟨one.2.1, two.2.1⟩,
      fun parameter member => ⟨one.2.2.1 parameter member, two.2.2.1 parameter member⟩,
      body.uses_and one.2.2.2 two.2.2.2⟩
  | .giveBack argument, one, two => ⟨⟨one.1, two.1⟩, argument.uses_and one.2 two.2⟩
  | .print argument, one, two => ⟨⟨one.1, two.1⟩, argument.uses_and one.2 two.2⟩
  | .importFile _, one, two => ⟨⟨one.1, two.1⟩, ⟨one.2, two.2⟩⟩
  | .call _ arguments, one, two =>
    ⟨⟨one.1, two.1⟩, Expression.allUse_and arguments one.2 two.2⟩

theorem Statement.allUse_and : (trees : List Statement) → Statement.AllUse holds trees →
    Statement.AllUse holds' trees →
    Statement.AllUse (fun lexeme => holds lexeme ∧ holds' lexeme) trees
  | [], _, _ => trivial
  | tree :: trees, one, two => ⟨tree.uses_and one.1 two.1, Statement.allUse_and trees one.2 two.2⟩

end

end Bare

end

/-- All lexemes of a phrase have a property. -/
def All (holds : Lexeme → Prop) (phrase : List Lexeme) : Prop := ∀ lexeme ∈ phrase, holds lexeme

section
variable {holds : Lexeme → Prop}

@[simp] theorem all_nil : All holds [] := List.forall_mem_nil _

@[simp] theorem all_cons : All holds (lexeme :: phrase) ↔ holds lexeme ∧ All holds phrase :=
  List.forall_mem_cons

@[simp] theorem all_append :
    All holds (phrase ++ more) ↔ All holds phrase ∧ All holds more :=
  List.forall_mem_append

end

namespace Grammar
variable {holds : Lexeme → Prop}

private theorem sign?_eq {level : Nat} (listed : levels[level]? = some operators)
    (member : (sign, infixed) ∈ operators) :
    infixed.sign? = some sign := by
  have signed : ∀ level ∈ levels, ∀ entry ∈ level, entry.2.sign? = some entry.1 := by decide
  exact signed operators (List.mem_of_getElem? listed) _ member

private theorem uses_join {level : Nat} {tree other : Bare.Expression}
    (listed : levels[level]? = some operators) (member : (sign, infixed) ∈ operators)
    (joined : holds (.symbol sign)) (left : tree.Uses holds) (right : other.Uses holds) :
    (infixed.join tree other).Uses holds := by
  have used : infixed.Uses holds := ⟨sign, sign?_eq listed member, joined⟩
  cases infixed with
  | binary operator => exact ⟨used, left, right⟩
  | logical operator => exact ⟨used, left, right⟩

mutual

theorem Level.uses : Level level phrase tree → All holds phrase → tree.Uses holds
  | .primary inner, all => inner.uses all
  | .operand inner, all => inner.uses all
  | .join left listed member right, all => by
    rw [all_append, all_cons] at all
    exact uses_join listed member all.2.1 (left.uses all.1) (right.uses all.2.2)

theorem Primary.uses : Primary phrase tree → All holds phrase → tree.Uses holds
  | .number, all => all _ List.mem_cons_self
  | .string, all => all _ List.mem_cons_self
  | .boolean, all => all _ List.mem_cons_self
  | .identifier, all => all _ List.mem_cons_self
  | .call inner, all => by
    rw [all_cons, all_cons, all_append] at all
    exact ⟨all.1, inner.uses all.2.2.1⟩
  | .parentheses inner, all => by
    rw [all_cons, all_append] at all
    exact inner.uses all.2.1

theorem Arguments.uses : Arguments phrase trees → All holds phrase →
    Bare.Expression.AllUse holds trees
  | .none, _ => trivial
  | .some first others, all => by
    rw [all_append] at all
    exact ⟨first.uses all.1, others.uses all.2⟩

theorem MoreArguments.uses : MoreArguments phrase trees → All holds phrase →
    Bare.Expression.AllUse holds trees
  | .none, _ => trivial
  | .some next others, all => by
    rw [all_cons, all_append] at all
    exact ⟨next.uses all.2.1, others.uses all.2.2⟩

end

private theorem uses_parameters (all : All holds (parameters names)) :
    ∀ name ∈ names, holds (.identifier name) := by
  cases names with
  | nil => exact nofun
  | cons first names =>
    rw [parameters_cons, all_cons] at all
    intro name member
    rcases List.mem_cons.mp member with rfl | member
    · exact all.1
    · exact all.2 (.identifier name) (List.mem_flatMap.mpr ⟨name, member, by simp⟩)

mutual

theorem Statement.uses : Statement next phrase tree → All holds phrase → tree.Uses holds
  | .declare value, all => by
    simp only [all_cons, all_append] at all
    exact ⟨all.1, all.2.1, value.uses all.2.2.2.1⟩
  | .assign value, all => by
    simp only [all_cons, all_append] at all
    exact ⟨all.1, value.uses all.2.2.1⟩
  | .call inner, all => by
    simp only [all_cons, all_append] at all
    exact ⟨all.1, inner.uses all.2.2.1⟩
  | .giveBack argument, all => by
    simp only [all_cons, all_append] at all
    exact ⟨all.1, argument.uses all.2.1⟩
  | .print argument, all => by
    simp only [all_cons, all_append] at all
    exact ⟨all.1, argument.uses all.2.2.1⟩
  | .importFile, all => by
    simp only [all_cons] at all
    exact ⟨all.1, all.2.2.1⟩
  | .block body, all => by
    simp only [all_cons, all_append] at all
    exact body.uses all.2.1
  | .branch test consequent _, all => by
    simp only [all_cons, all_append] at all
    exact ⟨all.1, test.uses all.2.2.1, consequent.uses all.2.2.2.2⟩
  | .alternative test consequent alternate, all => by
    simp only [all_cons, all_append] at all
    obtain ⟨word, _, condition, _, first, other, second⟩ := all
    exact ⟨word, test.uses condition, consequent.uses first, other, alternate.uses second⟩
  | .loop test body, all => by
    simp only [all_cons, all_append] at all
    exact ⟨all.1, test.uses all.2.2.1, body.uses all.2.2.2.2⟩
  | .function body, all => by
    simp only [all_cons, all_append] at all
    obtain ⟨word, name, _, names, _, rest⟩ := all
    exact ⟨word, name, uses_parameters names, body.uses rest⟩

theorem Statements.uses : Statements next phrase trees → All holds phrase →
    Bare.Statement.AllUse holds trees
  | .nil, _ => trivial
  | .cons first others, all => by
    rw [all_append] at all
    exact ⟨first.uses all.1, others.uses all.2⟩

end

end Grammar
end ScriptKit
