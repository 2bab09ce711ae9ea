import ScriptKit.Proofs.Program.Parts
import ScriptKit.Proofs.Token.Order

/-!
Where the parts of a program stand. A tree is read from a stretch of tokens and stands on it, and the
trees inside it stand on stretches of that one, one after the other. Tokens stand at places that go up,
so spans nest and follow each other as the trees do.
-/
namespace ScriptKit

namespace Node

/-- The node starts and ends at two of the places, its parts stand inside it, and each of them ends
before the next one starts. -/
structure Laid (places : List Position) (node : Node) : Prop where
  first : node.place.first ∈ places
  last : node.place.last ∈ places
  forward : node.place.first ≤ node.place.last
  inside : ∀ part ∈ node.children,
    node.place.first ≤ part.place.first ∧ part.place.last ≤ node.place.last
  apart : node.children.Pairwise fun one two => one.place.last < two.place.first

/-- The node and everything in it is laid out on the places. -/
inductive Stands (places : List Position) : Node → Prop where
  | intro (laid : node.Laid places) (parts : ∀ part ∈ node.children, Stands places part) :
      Stands places node

theorem Stands.laid : Stands places node → node.Laid places
  | .intro laid _ => laid

theorem Stands.widen {wider : List Position} (stands : Stands places node) (within : places ⊆ wider) :
    Stands wider node := by
  induction stands with
  | intro laid _ ih =>
    exact .intro ⟨within laid.first, within laid.last, laid.forward, laid.inside, laid.apart⟩
      ih

/-- The nodes stand on stretches of the places, one after the other. -/
inductive InOrder : List Position → List Node → Prop where
  | nil : InOrder places []
  | skip (others : InOrder places nodes) : InOrder (gap ++ places) nodes
  | cons (first : Stands places node) (others : InOrder places' nodes) :
      InOrder (places ++ places') (node :: nodes)

namespace InOrder

theorem single (stands : Stands places node) : InOrder places [node] := by
  have alone : InOrder (places ++ []) [node] := .cons stands .nil
  rwa [List.append_nil] at alone

theorem append (first : InOrder places nodes) (second : InOrder places' nodes') :
    InOrder (places ++ places') (nodes ++ nodes') := by
  induction first with
  | nil => exact .skip second
  | skip others ih =>
    rw [List.append_assoc]
    exact .skip ih
  | cons first others ih =>
    rw [List.append_assoc]
    exact .cons first ih

theorem stands (inOrder : InOrder places nodes) : ∀ node ∈ nodes, Stands places node := by
  induction inOrder with
  | nil => exact List.forall_mem_nil _
  | skip others ih =>
    exact fun node member => (ih node member).widen (List.subset_append_right _ _)
  | cons first others ih =>
    refine List.forall_mem_cons.mpr ⟨first.widen (List.subset_append_left _ _), ?_⟩
    exact fun node member => (ih node member).widen (List.subset_append_right _ _)

theorem apart (inOrder : InOrder places nodes) (ascending : places.Pairwise (· < ·)) :
    nodes.Pairwise fun one two => one.place.last < two.place.first := by
  induction inOrder with
  | nil => exact .nil
  | skip others ih =>
    exact ih (List.pairwise_append.mp ascending).2.1
  | cons first others ih =>
    obtain ⟨_, rest, below⟩ := List.pairwise_append.mp ascending
    refine List.pairwise_cons.mpr ⟨?_, ih rest⟩
    intro node member
    exact below _ first.laid.last _ (others.stands node member).laid.first

end InOrder

theorem head_le {places : List Position} (ascending : places.Pairwise (· < ·))
    (head : places.head? = some first) : ∀ place ∈ places, first ≤ place := by
  obtain ⟨others, rfl⟩ := List.head?_eq_some_iff.mp head
  exact List.forall_mem_cons.mpr ⟨le_refl _, fun place member =>
    (List.rel_of_pairwise_cons ascending member).le⟩

private theorem le_last {places : List Position} (ascending : places.Pairwise (· < ·))
    (final : places.getLast? = some last) : ∀ place ∈ places, place ≤ last := by
  obtain ⟨others, rfl⟩ := List.getLast?_eq_some_iff.mp final
  intro place member
  rcases List.mem_append.mp member with member | member
  · exact ((List.pairwise_append.mp ascending).2.2 _ member _ (List.mem_singleton.mpr rfl)).le
  · exact (List.mem_singleton.mp member).le

/-- A node that spans a whole stretch stands on it, if its parts do in order. -/
theorem Stands.whole {places : List Position} {node : Node} (inOrder : InOrder places node.children)
    (ascending : places.Pairwise (· < ·)) (head : places.head? = some node.place.first)
    (final : places.getLast? = some node.place.last) : Stands places node := by
  have first := List.mem_of_head? head
  have last := List.mem_of_getLast? final
  refine .intro ⟨first, last, head_le ascending head _ last, ?_, inOrder.apart ascending⟩
    inOrder.stands
  intro part member
  have laid := (inOrder.stands part member).laid
  exact ⟨head_le ascending head _ laid.first, le_last ascending final _ laid.last⟩

end Node

private theorem placesOf_append (tokens more : List Token) :
    placesOf (tokens ++ more) = placesOf tokens ++ placesOf more :=
  List.map_append

private theorem ascending_append (ascending : (placesOf (tokens ++ more)).Pairwise (· < ·)) :
    (placesOf tokens).Pairwise (· < ·) ∧ (placesOf more).Pairwise (· < ·) := by
  rw [placesOf_append] at ascending
  obtain ⟨front, back, _⟩ := List.pairwise_append.mp ascending
  exact ⟨front, back⟩

namespace Node.InOrder

theorem word (token : Token) (others : InOrder (placesOf tokens) nodes) :
    InOrder (placesOf (token :: tokens)) nodes := by
  have skipped : InOrder ([token.position] ++ placesOf tokens) nodes := .skip others
  exact skipped

theorem phrase (first : Stands (placesOf tokens) node) (others : InOrder (placesOf more) nodes) :
    InOrder (placesOf (tokens ++ more)) (node :: nodes) := by
  rw [placesOf_append]
  exact .cons first others

theorem before (inOrder : InOrder (placesOf tokens) nodes) (more : List Token) :
    InOrder (placesOf (tokens ++ more)) nodes := by
  have followed : InOrder (placesOf tokens ++ placesOf more) (nodes ++ []) := inOrder.append .nil
  rwa [List.append_nil, ← placesOf_append] at followed

theorem behind (tokens : List Token) (inOrder : InOrder (placesOf more) nodes) :
    InOrder (placesOf (tokens ++ more)) nodes := by
  rw [placesOf_append]
  exact .skip inOrder

end Node.InOrder

namespace Located
open Node

/-- A node stands on the tokens from its first place to its last, if its parts do in order. -/
theorem Bounds.stands {node : Node} (bounds : Bounds phrase node.place)
    (ascending : (placesOf phrase).Pairwise (· < ·))
    (inOrder : InOrder (placesOf phrase) node.children) : Stands (placesOf phrase) node := by
  refine .whole inOrder ascending ?_ ?_
  · rw [placesOf, List.head?_map, bounds.first]
  · rw [placesOf, List.getLast?_map, bounds.last]

private theorem stands_infix (infixed : Infix) (bounds : Bounds phrase stretch)
    (ascending : (placesOf phrase).Pairwise (· < ·))
    (inOrder : InOrder (placesOf phrase) [.expression left, .expression right]) :
    Stands (placesOf phrase) (.expression (infixed.apply stretch left right)) := by
  cases infixed <;> exact Bounds.stands bounds ascending inOrder

mutual

theorem Level.stands (located : Level level phrase stretch tree)
    (ascending : (placesOf phrase).Pairwise (· < ·)) :
    Stands (placesOf phrase) (.expression tree) := by
  match located, located.bounds, ascending with
  | .primary inner, _, ascending => exact inner.stands ascending
  | .operand inner, _, ascending => exact inner.stands ascending
  | .join left _ right, bounds, ascending =>
    obtain ⟨first, others⟩ := ascending_append ascending
    exact stands_infix _ bounds ascending
      (.phrase (left.stands first) (.word _ (.single (right.stands others.of_cons))))

theorem Primary.stands (located : Primary phrase stretch tree)
    (ascending : (placesOf phrase).Pairwise (· < ·)) :
    Stands (placesOf phrase) (.expression tree) := by
  match located, located.bounds, ascending with
  | .number, bounds, ascending | .string, bounds, ascending | .boolean, bounds, ascending
  | .identifier, bounds, ascending => exact bounds.stands ascending .nil
  | .call inner, bounds, ascending =>
    obtain ⟨arguments, _⟩ := ascending_append ascending.of_cons.of_cons
    exact bounds.stands ascending (.word _ (.word _ ((inner.stands arguments).before _)))
  | .parentheses inner, _, ascending =>
    obtain ⟨inside, _⟩ := ascending_append ascending.of_cons
    refine (inner.stands inside).widen (List.map_subset _ ?_)
    exact List.subset_cons_of_subset _ (List.subset_append_left _ _)

theorem Arguments.stands : Arguments phrase trees → (placesOf phrase).Pairwise (· < ·) →
    InOrder (placesOf phrase) (trees.map .expression)
  | .none, _ => .nil
  | .some first others, ascending => by
    obtain ⟨front, back⟩ := ascending_append ascending
    exact .phrase (first.stands front) (others.stands back)

theorem MoreArguments.stands : MoreArguments phrase trees → (placesOf phrase).Pairwise (· < ·) →
    InOrder (placesOf phrase) (trees.map .expression)
  | .none, _ => .nil
  | .some next others, ascending => by
    obtain ⟨front, back⟩ := ascending_append ascending.of_cons
    exact .word _ (.phrase (next.stands front) (others.stands back))

end

mutual

theorem Statement.stands (located : Statement next phrase stretch tree)
    (ascending : (placesOf phrase).Pairwise (· < ·)) :
    Stands (placesOf phrase) (.statement tree) := by
  match located, located.bounds, ascending with
  | .declare value, bounds, ascending =>
    obtain ⟨inside, _⟩ := ascending_append ascending.of_cons.of_cons.of_cons
    exact bounds.stands ascending (.word _ (.word _ (.word _ (.phrase (value.stands inside) .nil))))
  | .assign value, bounds, ascending =>
    obtain ⟨inside, _⟩ := ascending_append ascending.of_cons.of_cons
    exact bounds.stands ascending (.word _ (.word _ (.phrase (value.stands inside) .nil)))
  | .call inner, _, ascending =>
    -- The semicolon is not part of the call.
    rw [List.append_cons, ← List.cons_append, ← List.cons_append] at ascending ⊢
    obtain ⟨call, _⟩ := ascending_append ascending
    obtain ⟨arguments, _⟩ := ascending_append call.of_cons.of_cons
    refine Stands.widen ?_ (List.map_subset _ (List.subset_append_left _ _))
    exact Bounds.stands (Primary.call inner).bounds call
      (.word _ (.word _ ((inner.stands arguments).before _)))
  | .giveBack argument, bounds, ascending =>
    obtain ⟨inside, _⟩ := ascending_append ascending.of_cons
    exact bounds.stands ascending (.word _ (.phrase (argument.stands inside) .nil))
  | .print argument, bounds, ascending =>
    obtain ⟨inside, _⟩ := ascending_append ascending.of_cons.of_cons
    exact bounds.stands ascending (.word _ (.word _ (.phrase (argument.stands inside) .nil)))
  | .importFile, bounds, ascending => exact bounds.stands ascending .nil
  | .block body, bounds, ascending =>
    obtain ⟨inside, _⟩ := ascending_append ascending.of_cons
    exact bounds.stands ascending (.word _ ((body.stands inside).before _))
  | .branch test consequent _, bounds, ascending =>
    obtain ⟨inside, later⟩ := ascending_append ascending.of_cons.of_cons
    exact bounds.stands ascending (.word _ (.word _ (.phrase (test.stands inside)
      (.word _ (.single (consequent.stands later.of_cons))))))
  | .alternative test consequent alternate, bounds, ascending =>
    obtain ⟨inside, later⟩ := ascending_append ascending.of_cons.of_cons
    obtain ⟨taken, last⟩ := ascending_append later.of_cons
    exact bounds.stands ascending (.word _ (.word _ (.phrase (test.stands inside)
      (.word _ (.phrase (consequent.stands taken)
        (.word _ (.single (alternate.stands last.of_cons))))))))
  | .loop test body, bounds, ascending =>
    obtain ⟨inside, later⟩ := ascending_append ascending.of_cons.of_cons
    exact bounds.stands ascending (.word _ (.word _ (.phrase (test.stands inside)
      (.word _ (.single (body.stands later.of_cons))))))
  | .function _ body, bounds, ascending =>
    obtain ⟨_, later⟩ := ascending_append ascending.of_cons.of_cons.of_cons
    exact bounds.stands ascending (.word _ (.word _ (.word _ (.behind _
      (.word _ (.single (body.stands later.of_cons)))))))

theorem Statements.stands : Statements next phrase trees → (placesOf phrase).Pairwise (· < ·) →
    InOrder (placesOf phrase) (trees.map .statement)
  | .nil, _ => .nil
  | .cons first others, ascending => by
    obtain ⟨front, back⟩ := ascending_append ascending
    exact .phrase (first.stands front) (others.stands back)

end
end Located

/-- The span of the statements ends at the last token. -/
theorem parseStatements_last {last : Position} {tokens : List Token}
    {parsed : List Statement × Position} (success : parseStatements last tokens = .ok parsed) :
    (placesOf tokens).getLast?.getD last = parsed.2 := by
  rw [parseStatements.eq_def] at success
  split at success
  · cases success
    rfl
  · obtain ⟨first, head, success⟩ := bind_eq_ok.mp success
    obtain ⟨others, tail, success⟩ := bind_eq_ok.mp success
    cases success
    obtain ⟨phrase, start, taken, located⟩ := Located.parseStatement_located head
    have final : (placesOf phrase).getLast? = some first.last := by
      rw [placesOf, List.getLast?_map, located.bounds.last]
    calc (placesOf tokens).getLast?.getD last
        = ((placesOf first.rest).getLast?.or (placesOf phrase).getLast?).getD last := by
          rw [← List.getLast?_append, ← placesOf_append, ← taken]
      _ = (placesOf first.rest).getLast?.getD first.last := by
          rw [final, Option.getD_or, Option.getD_some]
      _ = others.2 := parseStatements_last tail
termination_by tokens.length
decreasing_by grind

/-- A program stands on its tokens, or where its text ends if it has none. -/
theorem parseProgram_stands {program : Program} (success : parseProgram stream = .ok program)
    (ascending : (placesOf stream.tokens).Pairwise (· < ·)) :
    Node.Stands (placesOf stream.tokens ++ [stream.stop]) (.program program) := by
  obtain ⟨statements, read, success⟩ := bind_eq_ok.mp success
  cases success
  have inOrder := (Located.parseStatements_located read).stands ascending
  have final := parseStatements_last read
  cases shape : stream.tokens with
  | nil =>
    rw [shape, parseStatements] at read
    cases read
    exact .whole .nil (List.pairwise_singleton _ _) rfl rfl
  | cons token rest =>
    rw [shape] at inOrder ascending final
    refine Node.Stands.widen (.whole inOrder ascending rfl ?_) (List.subset_append_left _ _)
    rw [placesOf_cons, List.getLast?_cons, Option.getD_some] at final
    rw [placesOf_cons, List.getLast?_cons, final]
    rfl

/-- The nodes of a program are laid out on the tokens of its source text, with the end of the text as
the last of them. -/
theorem Program.ofSource_laid (parsed : ofSource source file = .ok program) :
    ∃ stream, TokenStream.ofSource source = .ok stream ∧
      ∀ node, program.Part node → node.Laid (placesOf stream.tokens ++ [stream.stop]) := by
  obtain ⟨stream, tokens, success⟩ := ofSource_eq_ok.mp parsed
  have stands := parseProgram_stands success (tokensFrom_ascends tokens).1
  refine ⟨stream, tokens, fun node part => Node.Stands.laid ?_⟩
  induction part with
  | whole => exact stands
  | inner outer child ih =>
    cases ih with
    | intro laid parts => exact parts _ child

/-- A call that is a statement, with parentheses around an argument. -/
def parenthesizedCall : Statement :=
  .call ⟨⟨1, 1⟩, ⟨1, 9⟩⟩ "f" [.identifier (.point ⟨1, 4⟩) "x", .identifier (.point ⟨1, 8⟩) "y"]

theorem Program.ofSource_laid_call :
    ofSource "f((x), y);" none = .ok ⟨⟨⟨1, 1⟩, ⟨1, 10⟩⟩, [parenthesizedCall]⟩ ∧
    ∃ stream, TokenStream.ofSource "f((x), y);" = .ok stream ∧
      (Node.statement parenthesizedCall).Laid (placesOf stream.tokens ++ [stream.stop]) := by
  have tokens : TokenStream.ofSource "f((x), y);" = .ok
      ⟨[⟨.identifier "f", ⟨1, 1⟩⟩, ⟨.symbol .leftParen, ⟨1, 2⟩⟩, ⟨.symbol .leftParen, ⟨1, 3⟩⟩,
        ⟨.identifier "x", ⟨1, 4⟩⟩, ⟨.symbol .rightParen, ⟨1, 5⟩⟩, ⟨.symbol .comma, ⟨1, 6⟩⟩,
        ⟨.identifier "y", ⟨1, 8⟩⟩, ⟨.symbol .rightParen, ⟨1, 9⟩⟩, ⟨.symbol .semicolon, ⟨1, 10⟩⟩],
        ⟨1, 11⟩⟩ := by
    decide +kernel
  have parsed : ofSource "f((x), y);" none = .ok ⟨⟨⟨1, 1⟩, ⟨1, 10⟩⟩, [parenthesizedCall]⟩ := by
    simp [ofSource, tokens, ofStream, parseProgram, parseStatements, parseStatement, parseArguments,
      parseMoreArguments, parseTiers, parseChain, parsePrimary, infixOf?, tierCount, expectSymbol, bind,
      Except.bind, pure, Except.pure, parenthesizedCall]
  obtain ⟨stream, read, laid⟩ := ofSource_laid parsed
  exact ⟨parsed, stream, read, laid _ (.inner .whole List.mem_cons_self)⟩

end ScriptKit
