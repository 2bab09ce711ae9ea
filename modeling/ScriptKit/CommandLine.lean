import ScriptKit.CommandLine.Arguments
import ScriptKit.Program.Dump
import ScriptKit.Toolchain

/-!
The commands of the program. A command ends with a status, or leaves early after a complaint about
its words or a call for help.
-/
namespace ScriptKit.CommandLine

inductive Outcome where
  | returned (status : Nat)
  | exited (status : Nat)
deriving DecidableEq, Repr

inductive Command where
  | init
  | build
  | run
  | ast
  | lsp
  | compile
deriving DecidableEq, Repr

namespace Command

/-- The command a first word names; any other word belongs to compiling a file. -/
def ofWord : String → Command
  | "init" => .init
  | "build" => .build
  | "run" => .run
  | "ast" => .ast
  | "lsp" => .lsp
  | _ => .compile

def grammar : Command → Grammar
  | .init => ⟨"asc init", .none, false⟩
  | .build => ⟨"asc build", .atMostOne "config", false⟩
  | .run => ⟨"asc run", .one "input_file", false⟩
  | .ast => ⟨"asc ast", .one "input_file", false⟩
  | .lsp => ⟨"asc lsp", .none, false⟩
  | .compile => ⟨"asc", .one "input_file", true⟩

end Command

def usage : String :=
  "Usage:
  asc init                  # create asconfig.json with defaults
  asc build [config]        # build project using asconfig.json (default: ./asconfig.json)
  asc run <file.as>          # run a single file with the interpreter
  asc ast <file.as>          # print the parsed AST as JSON
  asc <file.as> [-o DIR]     # compile a single file (and its imports)
  asc lsp                   # start the language server on stdio (needs the \"lsp\" extra)"

def operandHelp (column : String) : Operand → String
  | .none => ""
  | .atMostOne _ =>
    "positional arguments:\n  config" ++ column ++ "The path to the project configuration.\n\n"
  | .one _ =>
    "positional arguments:\n  input_file" ++ column ++ "The path to the input .as file.\n\n"

def helpText (grammar : Grammar) : String :=
  let shared := "usage: " ++ usage ++ "\n\n"
  if grammar.takesOutDir then
    shared ++ operandHelp "            " grammar.operand ++
      "options:\n  -h, --help            show this help message and exit\n" ++
      "  -o OUT_DIR, --out-dir OUT_DIR\n" ++
      "                        The directory to write the compiled output to.\n"
  else
    let column := if grammar.operand = .atMostOne "config" then "      " else "  "
    shared ++ operandHelp column grammar.operand ++
      "options:\n  -h, --help  show this help message and exit\n"

def fail (message : String) : Action Outcome := do
  Toolchain.printError (Color.red.paint message)
  return .returned 1

/-- Turns a missing file and a reported error into a message; other failures go on. -/
def reporting (path heading : String) (action : Action Outcome) : Action Outcome :=
  tryCatch action fun failure =>
    if failure.isMissingFile then fail ("File not found: " ++ path)
    else
      match failure with
      | .reported error => fail s!"\n--- {heading} ERROR ---\n{error.message}"
      | other => throw other

def init : Action Outcome := do
  let (created, workspace) ← Toolchain.inspect fun workspace =>
    Config.createDefault workspace configFileName
  set workspace
  if created then
    Toolchain.print (Color.green.paint (configFileName ++ " created"))
    Toolchain.print "Put your .as files into the rootDir (default: src/) and run \x60asc build\x60."
  else Toolchain.print (Color.yellow.paint (configFileName ++ " already exists"))
  return .returned 0

/-- Failing entries are told about and do not fail the command. -/
def build (configPath : String) : Action Outcome :=
  tryCatch
    (do
      let report ← Toolchain.buildProject configPath false
      if report.succeeded then return .returned 0
      Toolchain.print (Color.yellow.paint
        s!"{report.failed.length} entry file(s) failed to compile.")
      return .returned 0)
    fun failure =>
      match failure with
      | .reported error => fail s!"--- CONFIGURATION ERROR ---\n{error.message}"
      | other => throw other

def run (path : String) : Action Outcome :=
  reporting path "RUNTIME" do
    let _ ← Toolchain.runFile path
    return .returned 0

def ast (path : String) : Action Outcome :=
  reporting path "COMPILATION" do
    let program ← Toolchain.inspect fun workspace =>
      SourceFile.load workspace (workspace.absolute path)
    Toolchain.print program.dump
    return .returned 0

def compile (path : String) (outDir : Option String) : Action Outcome :=
  reporting path "COMPILATION" do
    let _ ← Toolchain.compileFile path outDir false
    Toolchain.print ("\n" ++ Color.green.paint "--- Compilation Successful ---")
    return .returned 0

def perform (command : Command) (operand outDir : Option String) : Action Outcome :=
  match command with
  | .init => init
  | .build => build (operand.getD configFileName)
  | .run => run (operand.getD "")
  | .ast => ast (operand.getD "")
  | .lsp => return .returned 0
  | .compile => compile (operand.getD "") outDir

/-- Without any word: build if there is a configuration, and tell how to use the program if not. -/
def withoutWords : Action Outcome := do
  let workspace ← get
  if workspace.files.contains (workspace.rooted configFileName) then build configFileName
  else
    Toolchain.print (usage ++ "\n")
    return .returned 1

def execute (arguments : List String) : Action Outcome :=
  match arguments with
  | [] => withoutWords
  | first :: rest => do
    let command := Command.ofWord first
    let grammar := command.grammar
    match request grammar (if command = .compile then arguments else rest) with
    | .ok (.run operand outDir) => perform command operand outDir
    | .ok .help => do
      modify fun workspace => { workspace with output := workspace.output ++ helpText grammar }
      return .exited 0
    | .error misuse => do
      Toolchain.printError s!"usage: {usage}\n{grammar.program}: error: {misuse.message}"
      return .exited 2

end ScriptKit.CommandLine
