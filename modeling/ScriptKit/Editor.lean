import ScriptKit.Program.Parser
import ScriptKit.Program.Symbols

/-!
What an editor asks about a script: the first error in it, and the names to offer for completion.
-/
namespace ScriptKit.Editor

/-- A stretch of a document with lines and characters counted from zero, its end excluded. -/
structure Range where
  startLine : Nat
  startCharacter : Nat
  endLine : Nat
  endCharacter : Nat
deriving DecidableEq

structure Diagnostic where
  range : Range
  message : String
deriving DecidableEq

/-- The name under which diagnostics are published. -/
def diagnosticSource : String := "asc"

/-- A span covers its last character; without one, the start of the document is marked. -/
def rangeOf : Option Span → Range
  | some span =>
    ⟨span.first.line - 1, span.first.column - 1, span.last.line - 1, span.last.column⟩
  | none => ⟨0, 0, 0, 100⟩

/-- The first error of a script, if any. An integer with too many digits is no diagnostic but a
failure. -/
def diagnostics (source : String) (file : Option String) : Except SourceFault (List Diagnostic) :=
  match Program.ofSource source file with
  | .ok _ => .ok []
  | .error (.reported error) => .ok [⟨rangeOf error.span, error.cause.message⟩]
  | .error fault => .error fault

inductive CompletionKind where
  | keyword
  | function
  | variable
deriving DecidableEq, Repr

structure Completion where
  label : String
  kind : CompletionKind
  detail : Option String
deriving DecidableEq

def keywords : List String :=
  ["let", "if", "else", "while", "function", "return", "true", "false", "print", "import"]

def keywordCompletions : List Completion :=
  keywords.map fun word => ⟨word, .keyword, none⟩

def symbolCompletions (program : Program) : List Completion :=
  let functions := program.functionNames
  let others := program.variableNames.filter fun name => !functions.contains name
  functions.map (fun name => ⟨name, .function, some "User-Defined Function"⟩) ++
    others.map fun name => ⟨name, .variable, some "Variable"⟩

/-- Keywords, then functions, then variables; keywords alone when the script has an error. -/
def completions (source : String) : Except SourceFault (List Completion) :=
  match Program.ofSource source none with
  | .ok program => .ok (keywordCompletions ++ symbolCompletions program)
  | .error (.reported _) => .ok keywordCompletions
  | .error fault => .error fault

end ScriptKit.Editor
