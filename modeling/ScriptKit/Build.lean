import ScriptKit.Emission
import ScriptKit.SourceFile

/-!
Building files. Compiling a file compiles the files it imports first and puts their text in the place
of the imports. Each file is written once in a build; later imports take its text from the output. A
file that is still being compiled further out is not entered again. Out of scope are the limit that a
host sets on nested calls, and faults of the disk and of the console.
-/
namespace ScriptKit

structure BuildSettings where
  projectRoot : String
  outDir : String
  sourceExtension : String
  outputExtension : String
  quiet : Bool

def defaultSourceExtension : String := ".as"

def defaultOutputExtension : String := ".js"

/-- `compiled` has the files in the order they were written, `inProgress` the files being compiled,
the innermost first. -/
structure BuildState where
  workspace : Workspace
  compiled : List String
  inProgress : List String

abbrev BuildAction := ExceptT Failure (StateM BuildState)

namespace BuildSettings

/-- The place of a file's output: the same way from the output directory as the file's from the
project root, with the extension changed. -/
def outputPath (settings : BuildSettings) (path : String) : String :=
  let relative := Path.relative path settings.projectRoot
  let (stem, extension) := Path.splitExtension relative
  let base := if extension = settings.sourceExtension then stem else relative
  Path.join settings.outDir (base ++ settings.outputExtension)

end BuildSettings

namespace BuildState

/-- A build in which nothing is compiled yet. -/
def fresh (workspace : Workspace) : BuildState := ⟨workspace, [], []⟩

def mapWorkspace (state : BuildState) (change : Workspace → Workspace) : BuildState :=
  { state with workspace := change state.workspace }

end BuildState

namespace Build

def info (settings : BuildSettings) (text : String) : BuildAction Unit :=
  if settings.quiet then return
  else modify fun state => state.mapWorkspace (·.printLine text)

def warn (text : String) : BuildAction Unit :=
  modify fun state =>
    state.mapWorkspace (·.printErrorLine (Color.yellow.paint ("WARNING: " ++ text)))

def reportFailure (text : String) : BuildAction Unit :=
  modify fun state => state.mapWorkspace (·.printErrorLine (Color.red.paint text))

/-- The text of a file compiled earlier, from its output. An output that has gone missing is empty. -/
def readOutput (settings : BuildSettings) (path : String) : BuildAction String := do
  let output := settings.outputPath path
  match (← get).workspace.read output with
  | .error (.failed .notFound _) => do
    warn s!"Compiled output for {path} is missing at {output}; inlining nothing."
    return ""
  | .error fault => throw (Failure.ofFile fault)
  | .ok content =>
    match Text.ofFile content with
    | .ok text => return text
    | .error fault => throw (Failure.undecodable fault)

/-- What stands for a file that is being compiled further out. -/
def cycleMark (settings : BuildSettings) (path : String) : String :=
  "/* cyclic import skipped: " ++ Path.relative path settings.projectRoot ++ " */"

/-- What stands for an imported file without any text. -/
def emptyMark (path : String) : String := "/* imported " ++ Path.baseName path ++ " */"

/-- Makes the directories above an output, then the output. -/
def writeOutput (output code : String) : BuildAction Unit := do
  let state ← get
  let (made, workspace) := state.workspace.makeDirectories (Path.directory output)
  set { state with workspace := workspace }
  match made with
  | .error fault => throw (Failure.ofFile fault)
  | .ok _ =>
    match workspace.write output code with
    | .error fault => throw (Failure.ofFile fault)
    | .ok written => set { state with workspace := written }

/-- Runs with a file in progress, which it no longer is afterwards, however it ends. -/
def during {α : Type} (path : String) (action : BuildAction α) : BuildAction α := fun state =>
  let (result, after) := action.run.run { state with inProgress := path :: state.inProgress }
  (result, { after with inProgress := after.inProgress.drop 1 })

/-- How the failure of an import looks at the place of the import. -/
def importFailure (file : String) (span : Span) (path : String) (failure : Failure) : Failure :=
  if failure.isMissingFile then
    .reported ⟨.importing, .importFileNotFound path, some span, some file⟩
  else
    match failure with
    | .reported error =>
      .reported ⟨.importing, .importFailed path error.message, some span, some file⟩
    | other => other

/-- The file an import names, seen from the directory of the importing file. -/
def importTarget (file path : String) : String :=
  Path.absolute "/" (Path.join (Path.directory file) path)

/-- Fills the sites of imports from left to right. -/
def fill (compile : String → BuildAction String) (file : String) :
    List Fragment → BuildAction String
  | [] => return ""
  | .text code :: rest => do
    let following ← fill compile file rest
    return code ++ following
  | .site span path :: rest => do
    let target := importTarget file path
    let code ← tryCatch (compile target) fun failure =>
      throw (importFailure file span path failure)
    let following ← fill compile file rest
    return (if code = "" then emptyMark target else code) ++ following

/-- Compiles a file that is neither compiled nor in progress. -/
def compileFresh (settings : BuildSettings) (compile : String → BuildAction String)
    (path : String) : BuildAction String := do
  let code ← during path do
    match SourceFile.load (← get).workspace path with
    | .error failure => throw failure
    | .ok program =>
      let code ← fill compile path program.emit
      writeOutput (settings.outputPath path) code
      modify fun state => { state with compiled := state.compiled ++ [path] }
      return code
  info settings s!"Compiled: {path} -> {settings.outputPath path}"
  return code

/-- Compiles the file at a normal path, with imports nested at most `depth` deep. -/
def compileWithin (settings : BuildSettings) : Nat → String → BuildAction String
  | 0, _ => throw .nestedTooDeep
  | depth + 1, path => do
    let state ← get
    if state.compiled.contains path then readOutput settings path
    else if state.inProgress.contains path then
      warn s!"Cyclic import detected (skipping inline): {path}"
      return cycleMark settings path
    else compileFresh settings (compileWithin settings depth) path

/-- A chain of imports is at most this long: it has no file twice, a file has at most two normal
paths, and what a build writes imports nothing. -/
def depthLimit (tree : FileTree) : Nat := 2 * tree.entries.length + 2

/-- Compiles a file with all it imports, and gives the emitted text. -/
def compile (settings : BuildSettings) (path : String) : BuildAction String := do
  let workspace := (← get).workspace
  compileWithin settings (depthLimit workspace.files) (workspace.absolute path)

/-- What came of each entry of a build. -/
structure Report where
  outputs : List (String × String)
  failed : List (String × String)

namespace Report

def empty : Report := ⟨[], []⟩

def succeeded (report : Report) : Bool := report.failed.isEmpty

end Report

/-- Compiles an entry. A missing file or an error in a script is recorded; anything else ends the
build. -/
def buildEntry (settings : BuildSettings) (report : Report) (entry : String) :
    BuildAction Report := do
  let path := (← get).workspace.absolute entry
  let record (failure : Failure) : BuildAction Report := do
    let message := failure.message
    reportFailure s!"Error compiling {path}: {message}"
    return { report with failed := Table.put path message report.failed }
  tryCatch
    (do
      let _ ← compile settings path
      return { report with outputs := Table.put path (settings.outputPath path) report.outputs })
    fun failure =>
      match failure with
      | .reported _ => record failure
      | _ => if failure.isMissingFile then record failure else throw failure

/-- Compiles every entry in turn. -/
def build (settings : BuildSettings) (report : Report) : List String → BuildAction Report
  | [] => return report
  | entry :: rest => do
    let next ← buildEntry settings report entry
    build settings next rest

end Build
end ScriptKit
