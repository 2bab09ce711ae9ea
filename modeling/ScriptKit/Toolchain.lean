import ScriptKit.Discovery

/-!
What the toolchain offers: compile one file with its imports, build a project from its configuration,
or run a script.
-/
namespace ScriptKit.Toolchain

def print (text : String) : Action Unit := modify (·.printLine text)

def printError (text : String) : Action Unit := modify (·.printErrorLine text)

/-- Takes a result found by looking at the workspace only. -/
def inspect {α : Type} (look : Workspace → Except Failure α) : Action α := do
  match look (← get) with
  | .ok value => return value
  | .error failure => throw failure

def makeDirectories (path : String) : Action Unit := do
  let (made, workspace) := (← get).makeDirectories path
  set workspace
  match made with
  | .ok _ => return
  | .error fault => throw (Failure.ofFile fault)

/-- Builds from scratch; the workspace keeps what the build did. -/
def withFreshBuild {α : Type} (action : BuildAction α) : Action α := fun workspace =>
  let (result, state) := action.run.run (.fresh workspace)
  (result, state.workspace)

def settings (projectRoot outDir : String) (quiet : Bool) : BuildSettings :=
  ⟨projectRoot, outDir, defaultSourceExtension, defaultOutputExtension, quiet⟩

/-- Where outputs go: a directory, and how its path goes on from the first name that is no text. -/
structure OutDir where
  directory : String
  beyond : List Point

namespace OutDir

def named (directory : String) : OutDir := ⟨directory, []⟩

def join (base : String) (path : List Point) : OutDir :=
  match Text.ofPoints path with
  | .ok text => .named (Path.join base text)
  | .error _ =>
    let text := path.takeWhile (!·.isHalf)
    let name := text.reverse.takeWhile (· != .char '/')
    let above := text.take (text.length - name.length)
    ⟨Path.join base (String.ofList (above.filterMap Point.char?)), path.drop above.length⟩

/-- Why the first name that is no text has no encoding in a path, unless it has one. -/
def fault? (place : OutDir) : Option EncodingFault :=
  let name := place.beyond.takeWhile (· != .char '/')
  (Text.encodingFault? (fun point => !point.isHalf || point.isByte) name).map fun fault =>
    { fault with position := place.directory.length + fault.position }

end OutDir

/-- Makes the directory for the outputs. Before a name that is no text all directories are made, unless
what is there is none. -/
def makeOutDir (place : OutDir) : Action Unit := do
  if place.beyond = [] then makeDirectories place.directory
  else
    let (made, workspace) := (← get).makeDirectories (Path.directory place.directory)
    set workspace
    let refusal :=
      match place.fault? with
      | some fault => .unencodable fault
      | none => .unnameable place.beyond
    match made with
    | .ok _ => throw refusal
    | .error fault => throw (if fault.isExisting then refusal else Failure.ofFile fault)

/-- Where the output of a single file goes when nothing is said about it: the configured directory
if the current directory has a usable configuration, and beside the file otherwise. -/
def singleFileOutDir (inputDirectory : String) : Action OutDir := do
  let workspace ← get
  let path := workspace.absolute configFileName
  if workspace.files.contains path then
    match Config.read workspace path with
    | .ok config => return .join (Path.directory path) config.outDir
    | .error (.reported error) => do
      printError (Color.yellow.paint (s!"WARNING: failed to read {configFileName}: " ++
        error.cause.message ++ " Falling back to input directory."))
      return .named inputDirectory
    | .error failure => throw failure
  else return .named inputDirectory

/-- Compiles a file and all it imports; its own directory is the project root. -/
def compileFile (path : String) (outDir : Option String) (quiet : Bool) : Action String := do
  let workspace ← get
  let absolutePath := workspace.absolute path
  if workspace.files.hasFile absolutePath then
    let projectRoot := Path.directory absolutePath
    let given := outDir.getD ""
    let place ←
      if given = "" then singleFileOutDir projectRoot else pure (.named (workspace.absolute given))
    makeOutDir place
    withFreshBuild (Build.compile (settings projectRoot place.directory quiet) absolutePath)
  else throw (.missingInput path)

/-- Builds every entry of a project. -/
def buildProject (configPath : String) (quiet : Bool) : Action Build.Report := do
  let path := (← get).absolute configPath
  let config ← inspect fun workspace => Config.load workspace path
  let projectRoot := Path.directory path
  let outDir := Path.join projectRoot config.outDir
  let entries ← inspect fun workspace => Discovery.entries workspace.files config projectRoot
  makeDirectories outDir
  let report ← withFreshBuild (Build.build (settings projectRoot outDir quiet) .empty entries)
  if quiet then return report
  print s!"\nBuild finished. Output in: {outDir}"
  return report

/-- Runs a script. What it printed is kept also if it fails. The heap belongs to the value. -/
def runFile (path : String) : Action (Value × Heap) := do
  let absolutePath := (← get).absolute path
  let program ← inspect fun workspace => SourceFile.load workspace absolutePath
  let (result, machine) := Machine.initial.run (some absolutePath) amplyFuelled program
  modify fun workspace => { workspace with output := workspace.output ++ machine.output }
  match result with
  | .ok value => return (value, machine.heap)
  | .error fault => throw (Failure.ofRun fault)

end ScriptKit.Toolchain
