import ScriptKit.Build
import ScriptKit.Config
import ScriptKit.Pattern.Selection

/-!
The entries of a project. A list of files names them; otherwise they are the source files below the
source directory that the patterns select, or all of them if there are no patterns. They come sorted
and without repetition.
-/
namespace ScriptKit.Discovery

def sorted (paths : List String) : List String :=
  paths.mergeSort fun left right => decide (left ≤ right)

def sortedUnique (paths : List String) : List String := (sorted paths).eraseDups

/-- Whether the last dot of the last name starts the extension of source files. -/
def isSourceName (path : String) : Bool :=
  let name := (Path.baseName path).toList
  let extension := defaultSourceExtension.toList
  extension.length < name.length && extension.isSuffixOf name

/-- Whether a path leads to a source file. -/
def isSource (tree : FileTree) (path : String) : Except Failure Bool := do
  let file ← Pattern.found tree (fun entry => !entry.isDirectory) path
  return file && isSourceName path

/-- The parts that select every source file at any depth. -/
def everySource : List Pattern.Part := [.deep, .wild (Pattern.wildcards "*.as".toList)]

def matched (tree : FileTree) (root : String) (parts : List Pattern.Part) :
    Except Failure (List String) := do
  let paths ← Pattern.select tree (isSource tree) parts root
  return paths.map (Path.absolute "/")

def matchedAll (tree : FileTree) (root : String) : List String → Except Failure (List String)
  | [] => .ok []
  | pattern :: rest => do
    let parts ← (Pattern.parse pattern).mapError Failure.pattern
    let first ← matched tree root parts
    let others ← matchedAll tree root rest
    return first ++ others

/-- Several patterns may select one file, whereas the scan for all of them meets each file once. -/
def below (tree : FileTree) (config : Config) (root : String) : Except Failure (List String) := do
  if ← Pattern.found tree Entry.isDirectory root then
    if config.patterns.isEmpty then
      let paths ← matched tree root everySource
      return sorted paths
    else
      let paths ← matchedAll tree root config.patterns
      return sortedUnique paths
  else return []

/-- The directory that the sources are below. -/
def sourceRoot (config : Config) (projectRoot : String) : String :=
  Path.tidy (Path.join projectRoot config.rootDir)

/-- The entries of the project at an absolute root. -/
def entries (tree : FileTree) (config : Config) (projectRoot : String) :
    Except Failure (List String) :=
  let files := config.files.getD []
  if files.isEmpty then below tree config (sourceRoot config projectRoot)
  else .ok (sortedUnique (files.map fun file => Path.absolute "/" (Path.join projectRoot file)))

end ScriptKit.Discovery
