import ScriptKit.Failure

/-!
Where the toolchain works: files, a current directory and what was written to the console. An action
keeps its effects also when it fails.
-/
namespace ScriptKit

structure Workspace where
  files : FileTree
  directory : String
  output : String
  errors : String

/-- What the toolchain does in a workspace. -/
abbrev Action := ExceptT Failure (StateM Workspace)

inductive Color where
  | red
  | green
  | yellow
deriving DecidableEq, Repr

namespace Color

def code : Color → String
  | .red => "\x1b[91m"
  | .green => "\x1b[92m"
  | .yellow => "\x1b[93m"

def paint (color : Color) (text : String) : String := color.code ++ text ++ "\x1b[0m"

end Color

namespace Workspace

def printLine (workspace : Workspace) (text : String) : Workspace :=
  { workspace with output := workspace.output ++ text ++ "\n" }

def printErrorLine (workspace : Workspace) (text : String) : Workspace :=
  { workspace with errors := workspace.errors ++ text ++ "\n" }

/-- The normal form of a path seen from the current directory. -/
def absolute (workspace : Workspace) (path : String) : String :=
  Path.absolute workspace.directory path

/-- The path as the files see it. -/
def rooted (workspace : Workspace) (path : String) : String :=
  if path = "" ∨ Path.isAbsolute path then path else Path.join workspace.directory path

def read (workspace : Workspace) (path : String) : Except FileFault ByteArray :=
  workspace.files.read (workspace.rooted path)

def write (workspace : Workspace) (path : String) (text : String) : Except FileFault Workspace := do
  let files ← workspace.files.write (workspace.rooted path) text.toUTF8
  return { workspace with files := files }

def makeDirectories (workspace : Workspace) (path : String) :
    Except FileFault Unit × Workspace :=
  let (result, files) := workspace.files.makeDirectories (workspace.rooted path)
  (result, { workspace with files := files })

end Workspace

end ScriptKit
