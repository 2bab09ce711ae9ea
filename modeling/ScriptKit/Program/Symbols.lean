import ScriptKit.Program

/-!
The names a program declares: its functions, and its variables with all parameters.
-/
namespace ScriptKit

structure Symbols where
  functions : List String
  bound : List String

namespace Symbols

def empty : Symbols := ⟨[], []⟩

def append (first second : Symbols) : Symbols :=
  ⟨first.functions ++ second.functions, first.bound ++ second.bound⟩

end Symbols

mutual

/-- The names declared in a statement at any depth, in order and with repetitions. -/
def Statement.symbols : Statement → Symbols
  | .declare _ name _ => ⟨[], [name]⟩
  | .block _ body => Statement.symbolsAll body
  | .branch _ _ consequent none => consequent.symbols
  | .branch _ _ consequent (some alternate) => consequent.symbols.append alternate.symbols
  | .loop _ _ body => body.symbols
  | .function _ name parameters body => Symbols.append ⟨[name], parameters⟩ body.symbols
  | .assign .. | .giveBack .. | .print .. | .importFile .. | .call .. => .empty

def Statement.symbolsAll : List Statement → Symbols
  | [] => .empty
  | statement :: rest => statement.symbols.append (Statement.symbolsAll rest)

end

/-- Names in code-point order, each once. -/
def sortedNames (names : List String) : List String :=
  names.eraseDups.mergeSort fun first second => decide (first ≤ second)

namespace Program

def symbols (program : Program) : Symbols := Statement.symbolsAll program.body

def functionNames (program : Program) : List String := sortedNames program.symbols.functions

def variableNames (program : Program) : List String := sortedNames program.symbols.bound

end Program
end ScriptKit
