import ScriptKit.Program.Symbols
import ScriptKit.Proofs.Program.Recognition
import ScriptKit.Proofs.Program.Uses

/-!
The parts of a program, at any depth. A name that a part declares is among the names of the program,
and the operators of a program that was read are those of the language.
-/
namespace ScriptKit

def Expression.span : Expression → Span
  | .literal span _ | .identifier span _ | .binary span .. | .logical span .. | .call span .. => span

def Statement.span : Statement → Span
  | .declare span .. | .assign span .. | .block span _ | .branch span .. | .loop span .. => span
  | .function span .. | .giveBack span _ | .print span _ | .importFile span _ | .call span .. => span

namespace Node

/-- The stretch of text that a node stands at. -/
def place : Node → Span
  | .expression value => value.span
  | .statement value => value.span
  | .program value => value.span
  | .span value => value

/-- The nodes that stand directly inside a node, in order. -/
def children : Node → List Node
  | .expression (.literal ..) | .expression (.identifier ..) => []
  | .expression (.binary _ _ left right) => [.expression left, .expression right]
  | .expression (.logical _ _ left right) => [.expression left, .expression right]
  | .expression (.call _ _ arguments) => arguments.map .expression
  | .statement (.declare _ _ value) => [.expression value]
  | .statement (.assign _ _ value) => [.expression value]
  | .statement (.block _ body) => body.map .statement
  | .statement (.branch _ test consequent alternate) =>
    .expression test :: .statement consequent :: alternate.toList.map .statement
  | .statement (.loop _ test body) => [.expression test, .statement body]
  | .statement (.function _ _ _ body) => [.statement body]
  | .statement (.giveBack _ argument) => [.expression argument]
  | .statement (.print _ argument) => [.expression argument]
  | .statement (.importFile ..) => []
  | .statement (.call _ _ arguments) => arguments.map .expression
  | .program value => value.body.map .statement
  | .span _ => []

end Node

/-- The node is the program or stands in it, at any depth. -/
inductive Program.Part (program : Program) : Node → Prop where
  | whole : Part program (.program program)
  | inner (outer : Part program node) (child : part ∈ node.children) : Part program part

theorem mem_sortedNames {names : List String} : name ∈ sortedNames names ↔ name ∈ names := by
  rw [sortedNames, List.mem_mergeSort, List.mem_eraseDups]

/-- A function or a variable of the program has the name. -/
def Program.Declares (program : Program) (name : String) : Prop :=
  name ∈ program.functionNames ∨ name ∈ program.variableNames

namespace Symbols

def Has (symbols : Symbols) (name : String) : Prop :=
  name ∈ symbols.functions ∨ name ∈ symbols.bound

theorem has_append {first second : Symbols} :
    (first.append second).Has name ↔ first.Has name ∨ second.Has name := by
  simp only [Has, append, List.mem_append]
  exact or_or_or_comm

theorem not_has_empty : ¬ empty.Has name := by
  simp [Has, empty]

end Symbols

theorem Program.declares_iff {program : Program} :
    program.Declares name ↔ program.symbols.Has name := by
  rw [Declares, functionNames, variableNames, mem_sortedNames, mem_sortedNames]
  rfl

def Node.symbols : Node → Symbols
  | .statement value => value.symbols
  | .program value => value.symbols
  | .expression _ | .span _ => .empty

/-- Functions are told from the other names, which are those of variables and parameters. -/
inductive SymbolKind where
  | function
  | bound

namespace Symbols

def names (symbols : Symbols) : SymbolKind → List String
  | .function => symbols.functions
  | .bound => symbols.bound

@[simp] theorem names_empty (kind : SymbolKind) : empty.names kind = [] := by
  cases kind <;> rfl

@[simp] theorem names_append (first second : Symbols) (kind : SymbolKind) :
    (first.append second).names kind = first.names kind ++ second.names kind := by
  cases kind <;> rfl

private theorem has_iff {symbols : Symbols} :
    symbols.Has name ↔ ∃ kind, name ∈ symbols.names kind := by
  constructor
  · rintro (called | bound)
    · exact ⟨.function, called⟩
    · exact ⟨.bound, bound⟩
  · rintro ⟨kind, member⟩
    cases kind with
    | function => exact .inl member
    | bound => exact .inr member

end Symbols

section
variable {kind : SymbolKind}

theorem Statement.mem_symbolsAll {statements : List Statement} (member : statement ∈ statements)
    (named : name ∈ statement.symbols.names kind) : name ∈ (symbolsAll statements).names kind := by
  induction statements with
  | nil => cases member
  | cons first rest ih =>
    rw [symbolsAll, Symbols.names_append, List.mem_append]
    rcases List.mem_cons.mp member with rfl | member
    · exact .inl named
    · exact .inr (ih member)

/-- Only statements declare names, and a statement counts those of the statements inside it. -/
theorem Node.mem_of_child {node : Node} (child : part ∈ node.children)
    (named : name ∈ part.symbols.names kind) : name ∈ node.symbols.names kind := by
  have unnamed (expressions : List Expression) : part ∉ expressions.map Node.expression := by
    intro child
    obtain ⟨_, _, rfl⟩ := List.mem_map.mp child
    simp [symbols] at named
  have inside {statements : List Statement} (child : part ∈ statements.map Node.statement) :
      name ∈ (Statement.symbolsAll statements).names kind := by
    obtain ⟨_, member, rfl⟩ := List.mem_map.mp child
    exact Statement.mem_symbolsAll member named
  have aside {value : Expression} {others : List Node} (child : part ∈ .expression value :: others) :
      part ∈ others := by
    rcases List.mem_cons.mp child with rfl | child
    · exact absurd (List.mem_singleton_self _) (unnamed [value])
    · exact child
  cases node with
  | span value => cases child
  | program value => exact inside child
  | expression value =>
    cases value with
    | binary span operator left right => exact absurd child (unnamed [left, right])
    | logical span operator left right => exact absurd child (unnamed [left, right])
    | call span callee arguments => exact absurd child (unnamed arguments)
    | _ => cases child
  | statement value =>
    cases value with
    | declare span name value => exact absurd child (unnamed [value])
    | assign span name value => exact absurd child (unnamed [value])
    | block span body => exact inside child
    | branch span test consequent alternate =>
      cases alternate with
      | none =>
        obtain rfl := List.mem_singleton.mp (aside child)
        exact named
      | some other =>
        rw [symbols, Statement.symbols, Symbols.names_append, List.mem_append]
        rcases List.mem_cons.mp (aside child) with rfl | child
        · exact .inl named
        · obtain rfl := List.mem_singleton.mp child
          exact .inr named
    | loop span test body =>
      obtain rfl := List.mem_singleton.mp (aside child)
      exact named
    | function span name parameters body =>
      obtain rfl := List.mem_singleton.mp child
      rw [symbols, Statement.symbols, Symbols.names_append, List.mem_append]
      exact .inr named
    | giveBack span argument => exact absurd child (unnamed [argument])
    | print span argument => exact absurd child (unnamed [argument])
    | importFile span path => cases child
    | call span callee arguments => exact absurd child (unnamed arguments)

end

theorem Node.has_of_child {node : Node} (child : part ∈ node.children)
    (has : part.symbols.Has name) : node.symbols.Has name := by
  obtain ⟨kind, named⟩ := Symbols.has_iff.mp has
  exact Symbols.has_iff.mpr ⟨kind, mem_of_child child named⟩

/-- All lexemes that a node is made of have a property. -/
def Node.Uses (holds : Lexeme → Prop) : Node → Prop
  | .expression value => value.bare.Uses holds
  | .statement value => value.bare.Uses holds
  | .program value => Bare.Statement.AllUse holds value.bare
  | .span _ => True

section
variable {holds : Lexeme → Prop}

theorem Expression.uses_of_mem {expressions : List Expression} (member : expression ∈ expressions)
    (used : Bare.Expression.AllUse holds (bareAll expressions)) : expression.bare.Uses holds := by
  induction expressions with
  | nil => cases member
  | cons first rest ih =>
    rcases List.mem_cons.mp member with rfl | member
    · exact used.1
    · exact ih member used.2

theorem Statement.uses_of_mem {statements : List Statement} (member : statement ∈ statements)
    (used : Bare.Statement.AllUse holds (bareAll statements)) : statement.bare.Uses holds := by
  induction statements with
  | nil => cases member
  | cons first rest ih =>
    rcases List.mem_cons.mp member with rfl | member
    · exact used.1
    · exact ih member used.2

theorem Node.Uses.children {node : Node} (used : node.Uses holds) :
    ∀ part ∈ node.children, part.Uses holds := by
  have arguments {expressions : List Expression}
      (used : Bare.Expression.AllUse holds (Expression.bareAll expressions)) :
      ∀ part ∈ expressions.map Node.expression, part.Uses holds :=
    List.forall_mem_map.mpr fun _ member => Expression.uses_of_mem member used
  have statements {body : List Statement}
      (used : Bare.Statement.AllUse holds (Statement.bareAll body)) :
      ∀ part ∈ body.map Node.statement, part.Uses holds :=
    List.forall_mem_map.mpr fun _ member => Statement.uses_of_mem member used
  have one {part : Node} (used : part.Uses holds) : ∀ inner ∈ [part], inner.Uses holds :=
    List.forall_mem_singleton.mpr used
  have two {first second : Node} (used : first.Uses holds) (used' : second.Uses holds) :
      ∀ inner ∈ [first, second], inner.Uses holds := List.forall_mem_cons.mpr ⟨used, one used'⟩
  cases node with
  | span value => exact List.forall_mem_nil _
  | program value => exact statements used
  | expression value =>
    cases value with
    | binary span operator left right => exact two used.2.1 used.2.2
    | logical span operator left right => exact two used.2.1 used.2.2
    | call span callee others => exact arguments used.2
    | _ => exact List.forall_mem_nil _
  | statement value =>
    cases value with
    | declare span name value => exact one used.2.2
    | assign span name value => exact one used.2
    | block span body => exact statements used
    | branch span test consequent alternate =>
      cases alternate with
      | none => exact two used.2.1 used.2.2
      | some other => exact List.forall_mem_cons.mpr ⟨used.2.1, two used.2.2.1 used.2.2.2.2⟩
    | loop span test body => exact two used.2.1 used.2.2
    | function span name parameters body => exact one used.2.2.2
    | giveBack span argument => exact one used.2
    | print span argument => exact one used.2
    | importFile span path => exact List.forall_mem_nil _
    | call span callee others => exact arguments used.2

end

/-- What stands inside a node is an expression or a statement. -/
theorem Node.span_not_mem_children (node : Node) (value : Span) : .span value ∉ node.children := by
  intro child
  cases node with
  | expression outer => cases outer <;> simp [children] at child
  | statement outer => cases outer <;> simp [children] at child
  | program outer => simp [children] at child
  | span outer => cases child

namespace Program.Part
variable {program : Program}

theorem not_span : ¬ program.Part (.span value) := by
  intro part
  cases part with
  | inner outer child => exact Node.span_not_mem_children _ _ child

theorem declares (part : program.Part node) (has : node.symbols.Has name) :
    program.Declares name := by
  induction part with
  | whole => exact declares_iff.mpr has
  | inner outer child ih => exact ih (Node.has_of_child child has)

theorem uses {holds : Lexeme → Prop} (part : program.Part node)
    (used : Bare.Statement.AllUse holds program.bare) : node.Uses holds := by
  induction part with
  | whole => exact used
  | inner outer child ih => exact ih.children _ child

/-- No binary operator of a program that was read is unknown. -/
theorem known (part : program.Part (.expression (.binary place operator left right)))
    (parsed : ofSource source file = .ok program) : operator ∈ BinaryOperator.known := by
  obtain ⟨stream, _, success⟩ := ofSource_eq_ok.mp parsed
  have anything : All (fun _ => True) (lexemes stream.tokens) := fun _ _ => trivial
  obtain ⟨⟨sign, signed, _⟩, _⟩ := part.uses ((parseProgram_derives success).uses anything)
  cases operator with
  | unknown text => cases signed
  | _ => decide

end Program.Part

end ScriptKit
