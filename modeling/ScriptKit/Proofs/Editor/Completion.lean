import ScriptKit.Editor
import ScriptKit.Proofs.Program.Distinction
import ScriptKit.Proofs.Program.Parts
import ScriptKit.Proofs.Text.Sorting

/-!
What an editor offers for completion. The names are those that some construct of the program declares,
however deep it stands, each of them once; and none of them is a keyword, since no keyword is ever read
as a name.
-/
namespace ScriptKit

/-- The names that a node itself declares, without those of the nodes inside it. -/
def Node.own : Node → Symbols
  | .statement (.declare _ name _) => ⟨[], [name]⟩
  | .statement (.function _ name parameters _) => ⟨[name], parameters⟩
  | _ => .empty

section
variable {program : Program} {kind : SymbolKind}

theorem Node.own_subset (node : Node) : node.own.names kind ⊆ node.symbols.names kind := by
  intro name member
  unfold own at member
  split at member
  · exact member
  · rw [symbols, Statement.symbols, Symbols.names_append, List.mem_append]
    exact .inl member
  · simp at member

mutual

/-- Every name of a statement is declared by the statement itself or by one inside it. -/
theorem Statement.exists_own : (statement : Statement) → program.Part (.statement statement) →
    name ∈ statement.symbols.names kind → ∃ node, program.Part node ∧ name ∈ node.own.names kind
  | .declare .., part, member => ⟨_, part, member⟩
  | .block _ body, part, member =>
    exists_ownAll body (fun _ inside => .inner part (List.mem_map_of_mem inside)) member
  | .branch _ _ consequent none, part, member =>
    consequent.exists_own (.inner part (List.mem_cons_of_mem _ List.mem_cons_self)) member
  | .branch _ _ consequent (some alternate), part, member => by
    rw [symbols, Symbols.names_append] at member
    rcases List.mem_append.mp member with member | member
    · exact consequent.exists_own (.inner part (List.mem_cons_of_mem _ List.mem_cons_self)) member
    · exact alternate.exists_own
        (.inner part (List.mem_cons_of_mem _ (List.mem_cons_of_mem _ List.mem_cons_self))) member
  | .loop _ _ body, part, member =>
    body.exists_own (.inner part (List.mem_cons_of_mem _ List.mem_cons_self)) member
  | .function _ _ _ body, part, member => by
    rw [symbols, Symbols.names_append] at member
    rcases List.mem_append.mp member with member | member
    · exact ⟨_, part, member⟩
    · exact body.exists_own (.inner part List.mem_cons_self) member
  | .assign .., _, member | .giveBack .., _, member | .print .., _, member
  | .importFile .., _, member | .call .., _, member => by simp [symbols] at member

theorem Statement.exists_ownAll : (statements : List Statement) →
    (∀ statement ∈ statements, program.Part (.statement statement)) →
    name ∈ (symbolsAll statements).names kind →
    ∃ node, program.Part node ∧ name ∈ node.own.names kind
  | [], _, member => by simp [symbolsAll] at member
  | statement :: rest, parts, member => by
    obtain ⟨part, parts⟩ := List.forall_mem_cons.mp parts
    rw [symbolsAll, Symbols.names_append] at member
    rcases List.mem_append.mp member with member | member
    · exact statement.exists_own part member
    · exact exists_ownAll rest parts member

end

theorem Program.Part.mem_symbols (part : program.Part node) (named : name ∈ node.symbols.names kind) :
    name ∈ program.symbols.names kind := by
  induction part with
  | whole => exact named
  | inner outer child ih => exact ih (Node.mem_of_child child named)

/-- The names of a program are those that its parts declare. -/
theorem Program.mem_symbols :
    name ∈ program.symbols.names kind ↔ ∃ node, program.Part node ∧ name ∈ node.own.names kind := by
  constructor
  · intro member
    exact Statement.exists_ownAll program.body
      (fun _ inside => .inner .whole (List.mem_map_of_mem inside)) member
  · rintro ⟨node, part, member⟩
    exact part.mem_symbols (node.own_subset member)

theorem Program.mem_functionNames : name ∈ program.functionNames ↔
    ∃ span parameters body, program.Part (.statement (.function span name parameters body)) := by
  rw [functionNames, mem_sortedNames]
  refine (@mem_symbols _ .function _).trans ⟨?_, ?_⟩
  · rintro ⟨node, part, member⟩
    unfold Node.own at member
    split at member
    · cases member
    · obtain rfl := List.mem_singleton.mp member
      exact ⟨_, _, _, part⟩
    · cases member
  · rintro ⟨span, parameters, body, part⟩
    exact ⟨_, part, List.mem_singleton_self name⟩

theorem Program.mem_variableNames : name ∈ program.variableNames ↔
    (∃ span value, program.Part (.statement (.declare span name value))) ∨
      ∃ span callee parameters body,
        program.Part (.statement (.function span callee parameters body)) ∧ name ∈ parameters := by
  rw [variableNames, mem_sortedNames]
  refine (@mem_symbols _ .bound _).trans ⟨?_, ?_⟩
  · rintro ⟨node, part, member⟩
    unfold Node.own at member
    split at member
    · obtain rfl := List.mem_singleton.mp member
      exact .inl ⟨_, _, part⟩
    · exact .inr ⟨_, _, _, _, part, member⟩
    · cases member
  · rintro (⟨span, value, part⟩ | ⟨span, callee, parameters, body, part, member⟩)
    · exact ⟨_, part, List.mem_singleton_self name⟩
    · exact ⟨_, part, member⟩

/-- No name that a program declares is a reserved word. -/
theorem Program.Part.not_reserved {node : Node} (part : program.Part node)
    (own : name ∈ node.own.names kind) (parsed : ofSource source file = .ok program) :
    name ∉ reservedWords := by
  obtain ⟨stream, tokens, success⟩ := ofSource_eq_ok.mp parsed
  have used := part.uses ((parseProgram_derives success).uses (tokensFrom_written tokens))
  have preferred (written : (Lexeme.identifier name).Written) : name ∉ reservedWords := by
    obtain ⟨_, _, preferred, _⟩ := written
    exact preferred name rfl
  unfold Node.own at own
  split at own
  · cases kind with
    | function => cases own
    | bound =>
      obtain rfl := List.mem_singleton.mp own
      exact preferred used.2.1
  · cases kind with
    | function =>
      obtain rfl := List.mem_singleton.mp own
      exact preferred used.2.1
    | bound => exact preferred (used.2.2.1 name own)
  · simp at own

end

private theorem sortedNames_ascending (names : List String) :
    (sortedNames names).Pairwise (· < ·) :=
  ascending_mergeSort (nodup_eraseDups names)

theorem Program.not_reserved (parsed : ofSource source file = .ok program)
    (member : name ∈ program.functionNames ∨ name ∈ program.variableNames) : name ∉ reservedWords := by
  rcases member with member | member
  · obtain ⟨node, part, own⟩ := (@mem_symbols program .function _).mp (mem_sortedNames.mp member)
    exact part.not_reserved own parsed
  · obtain ⟨node, part, own⟩ := (@mem_symbols program .bound _).mp (mem_sortedNames.mp member)
    exact part.not_reserved own parsed

namespace Editor

/-- For a text that is a program, the completions are the reserved words, then the names of all functions
that are declared anywhere in it, then all other names that are declared or are parameters; both go up,
and no label comes twice. -/
theorem completions_exact (accepted : Program.ofSource source file = .ok program) :
    ∃ functions others : List String,
      completions source = .ok
        (reservedWords.map (⟨·, .keyword, none⟩) ++
          functions.map (⟨·, .function, some "User-Defined Function"⟩) ++
          others.map (⟨·, .variable, some "Variable"⟩)) ∧
      functions.Pairwise (· < ·) ∧
      (∀ name, name ∈ functions ↔ ∃ span parameters body,
        program.Part (.statement (.function span name parameters body))) ∧
      others.Pairwise (· < ·) ∧
      (∀ name, name ∈ others ↔ name ∉ functions ∧
        ((∃ span value, program.Part (.statement (.declare span name value))) ∨
          ∃ span callee parameters body,
            program.Part (.statement (.function span callee parameters body)) ∧
              name ∈ parameters)) ∧
      (reservedWords ++ functions ++ others).Nodup := by
  have accepted' : Program.ofSource source none = .ok program :=
    Program.ofSource_eq_ok.mpr (Program.ofSource_eq_ok.mp accepted)
  refine ⟨program.functionNames, program.variableNames.filter (!program.functionNames.contains ·),
    ?_, sortedNames_ascending _, fun _ => Program.mem_functionNames,
    (sortedNames_ascending _).filter _, fun name => ?_, ?_⟩
  · rw [completions, accepted', List.append_assoc]
    rfl
  · rw [List.mem_filter, Program.mem_variableNames, and_comm]
    simp
  · have ascending (names : List String) : (sortedNames names).Nodup :=
      (sortedNames_ascending names).imp ne_of_lt
    refine List.nodup_append.mpr ⟨List.nodup_append.mpr ⟨by decide, ascending _, ?_⟩,
      (ascending _).filter _, ?_⟩
    · rintro word reserved _ member rfl
      exact Program.not_reserved accepted (.inl member) reserved
    · rintro word earlier _ member rfl
      obtain ⟨declared, other⟩ := List.mem_filter.mp member
      rcases List.mem_append.mp earlier with reserved | called
      · exact Program.not_reserved accepted (.inr declared) reserved
      · simp [called] at other

/-- A function with a parameter of its own name. -/
theorem completions_exact_parameters :
    ∃ program, Program.ofSource "function f(f, a) import(\"m\");" none = .ok program ∧
      ∃ functions others : List String, completions "function f(f, a) import(\"m\");" = .ok
        (reservedWords.map (⟨·, .keyword, none⟩) ++
          functions.map (⟨·, .function, some "User-Defined Function"⟩) ++
          others.map (⟨·, .variable, some "Variable"⟩)) ∧
        "f" ∈ functions ∧ "f" ∉ others ∧ "a" ∈ others := by
  obtain ⟨program, parsed, bare⟩ := @Program.exists_ofSource "function f(f, a) import(\"m\");" _ _
    (by decide +kernel)
    (@Grammar.Statements.cons _ _ none [] []
      (@Grammar.Statement.function _ _ _ "f" ["f", "a"] (@Grammar.Statement.importFile _ "m")) .nil) none
  obtain ⟨functions, others, listed, _, called, _, named, _⟩ := completions_exact parsed
  obtain ⟨whole, body⟩ := program
  obtain ⟨_, _, rfl, first, rest⟩ := Statement.bareAll_eq_cons bare
  obtain rfl := Statement.bareAll_eq_nil rest
  obtain ⟨span, _, rfl, imported⟩ := Statement.bare_eq_function first
  obtain ⟨site, rfl⟩ := Statement.bare_eq_importFile imported
  have part : Program.Part ⟨whole, [.function span "f" ["f", "a"] (.importFile site "m")]⟩
      (.statement (.function span "f" ["f", "a"] (.importFile site "m"))) :=
    .inner .whole (List.mem_singleton_self _)
  have function : "f" ∈ functions := (called "f").mpr ⟨_, _, _, part⟩
  have other : "a" ∉ functions := by
    intro member
    have impossible := mem_sortedNames.mp (Program.mem_functionNames.mpr ((called "a").mp member))
    exact absurd (List.mem_singleton.mp impossible) (by decide)
  exact ⟨_, parsed, functions, others, listed, function,
    fun member => ((named "f").mp member).1 function,
    (named "a").mpr ⟨other, .inr ⟨_, _, _, _, part, by decide⟩⟩⟩

end Editor
end ScriptKit
