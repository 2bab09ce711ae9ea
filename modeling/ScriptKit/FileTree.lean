import ScriptKit.Path
import ScriptKit.Table
import ScriptKit.Text.Quoted

/-!
A tree of files and directories, kept as a table from locations to entries. Paths are looked up the
way an operating system does: every part but the last has to be a directory, and a step up leaves
the directory reached so far.
-/
namespace ScriptKit

/-- The names on the way from the root to an entry. -/
abbrev Location := List String

inductive Entry where
  | file (content : ByteArray)
  | directory

namespace Entry

instance : DecidableEq Entry
  | .file one, .file two => decidable_of_iff (one.data = two.data) (by simp [ByteArray.ext_iff])
  | .directory, .directory => isTrue rfl
  | .file _, .directory => isFalse nofun
  | .directory, .file _ => isFalse nofun

def isDirectory : Entry → Bool
  | .directory => true
  | .file _ => false

end Entry

structure FileTree where
  entries : List (Location × Entry)

inductive FileError where
  | notFound
  | exists
  | notDirectory
  | isDirectory
  | nameTooLong
deriving DecidableEq, Repr

namespace FileError

def number : FileError → Nat
  | .notFound => 2
  | .exists => 17
  | .notDirectory => 20
  | .isDirectory => 21
  | .nameTooLong => 36

def reason : FileError → String
  | .notFound => "No such file or directory"
  | .exists => "File exists"
  | .notDirectory => "Not a directory"
  | .isDirectory => "Is a directory"
  | .nameTooLong => "File name too long"

def message (error : FileError) (path : String) : String :=
  s!"[Errno {error.number}] {error.reason}: {Text.shown path}"

end FileError

/-- What goes wrong at a path: an error of the tree, or a path that no tree accepts. -/
inductive FileFault where
  | failed (error : FileError) (path : String)
  | nullByte
deriving DecidableEq

def FileFault.isExisting : FileFault → Bool
  | .failed .exists _ => true
  | _ => false

/-- The longest name of an entry, in bytes. -/
def nameLimit : Nat := 255

/-- The longest path that is looked up, in bytes. -/
def pathLimit : Nat := 4095

namespace FileTree

/-- A tree with nothing but its root. -/
def empty : FileTree := ⟨[]⟩

def get? (tree : FileTree) (location : Location) : Option Entry :=
  if location = [] then some .directory else tree.entries.lookup location

def isDirectoryAt (tree : FileTree) (location : Location) : Bool :=
  (tree.get? location).any Entry.isDirectory

def insert (tree : FileTree) (location : Location) (entry : Entry) : FileTree :=
  ⟨Table.put location entry tree.entries⟩

/-- Drops an entry and everything below it. -/
def erase (tree : FileTree) (location : Location) : FileTree :=
  ⟨tree.entries.filter fun entry => !location.isPrefixOf entry.1⟩

/-- An entry with its name, if it stands right inside a directory. -/
def childOf? (location : Location) : Location × Entry → Option (String × Entry)
  | (place, entry) =>
    match place.drop location.length with
    | [name] => if location.isPrefixOf place then some (name, entry) else none
    | _ => none

/-- The entries right inside a directory, by name. -/
def children (tree : FileTree) (location : Location) : List (String × Entry) :=
  tree.entries.filterMap (childOf? location)

/-- The way down from a directory, if it leads to a directory inside it. -/
def wayDown? (location : Location) : Location × Entry → Option Location
  | (place, entry) =>
    if entry.isDirectory ∧ location.isPrefixOf place ∧ place ≠ location then
      some (place.drop location.length)
    else none

/-- The ways down from a directory to itself and to each directory inside it. -/
def directoriesBelow (tree : FileTree) (location : Location) : List Location :=
  [] :: tree.entries.filterMap (wayDown? location)

/-- Follows the parts of a path from a location. -/
def walk (tree : FileTree) (location : Location) : List String → Except FileError Location
  | [] => .ok location
  | part :: rest =>
    if !tree.isDirectoryAt location then .error .notDirectory
    else if part = "" ∨ part = "." then tree.walk location rest
    else if part = ".." then tree.walk location.dropLast rest
    else if nameLimit < part.utf8ByteSize then .error .nameTooLong
    else
      match tree.get? (location ++ [part]) with
      | none => .error .notFound
      | some _ => tree.walk (location ++ [part]) rest

def pathParts (path : String) : List String := (Path.parts path.toList).map String.ofList

/-- What is wrong with a path whatever there is in the tree. -/
def checkPath (path : String) : Except FileError Unit :=
  if path = "" then .error .notFound
  else if pathLimit < path.utf8ByteSize then .error .nameTooLong
  else .ok ()

/-- The entry an absolute path leads to. -/
def locate (tree : FileTree) (path : String) : Except FileError (Location × Entry) := do
  checkPath path
  let location ← tree.walk [] (pathParts path)
  match tree.get? location with
  | some entry => return (location, entry)
  | none => throw .notFound

def hasNull (path : String) : Bool := path.toList.contains '\x00'

def entryAt? (tree : FileTree) (path : String) : Option Entry :=
  if hasNull path then none
  else
    match tree.locate path with
    | .ok (_, entry) => some entry
    | .error _ => none

def contains (tree : FileTree) (path : String) : Bool := (tree.entryAt? path).isSome

def hasFile (tree : FileTree) (path : String) : Bool :=
  (tree.entryAt? path).any fun entry => !entry.isDirectory

def hasDirectory (tree : FileTree) (path : String) : Bool :=
  (tree.entryAt? path).any Entry.isDirectory

/-- The content of a file. -/
def read (tree : FileTree) (path : String) : Except FileFault ByteArray :=
  if hasNull path then .error .nullByte
  else
    match tree.locate path with
    | .ok (_, .file content) => .ok content
    | .ok (_, .directory) => .error (.failed .isDirectory path)
    | .error error => .error (.failed error path)

/-- The directory a new entry goes into and its name. Slashes at the end are passed over, which
`slashed` records; a path made of nothing else names no entry. -/
structure Destination where
  directory : Location
  name : String
  slashed : Bool

def destination (tree : FileTree) (path : String) : Except FileError (Option Destination) := do
  checkPath path
  let backwards := (pathParts path).reverse
  match backwards.dropWhile (· = "") with
  | [] => return none
  | name :: before =>
    let directory ← tree.walk [] before.reverse
    if !tree.isDirectoryAt directory then throw .notDirectory
    return some ⟨directory, name, backwards.head? = some ""⟩

/-- Puts content into a file, which is made if need be. -/
def writeAt (tree : FileTree) (path : String) (content : ByteArray) :
    Except FileError FileTree := do
  match ← tree.destination path with
  | none => throw .isDirectory
  | some target =>
    let location := target.directory ++ [target.name]
    if target.slashed ∨ target.name = "." ∨ target.name = ".." then throw .isDirectory
    if nameLimit < target.name.utf8ByteSize then throw .nameTooLong
    if tree.isDirectoryAt location then throw .isDirectory
    return tree.insert location (.file content)

def write (tree : FileTree) (path : String) (content : ByteArray) : Except FileFault FileTree :=
  if hasNull path then .error .nullByte
  else
    match tree.writeAt path content with
    | .ok after => .ok after
    | .error error => .error (.failed error path)

/-- Makes one directory, which must not be there yet. -/
def makeDirectoryAt (tree : FileTree) (path : String) : Except FileError FileTree := do
  match ← tree.destination path with
  | none => throw .exists
  | some target =>
    let location := target.directory ++ [target.name]
    if target.name = "." ∨ target.name = ".." then throw .exists
    if nameLimit < target.name.utf8ByteSize then throw .nameTooLong
    if (tree.get? location).isSome then throw .exists
    return tree.insert location .directory

/-- A directory that is already there will do. -/
def ensureDirectory (tree : FileTree) (path : String) : Except FileFault FileTree :=
  if hasNull path then .error .nullByte
  else
    match tree.makeDirectoryAt path with
    | .ok after => .ok after
    | .error error =>
      if tree.hasDirectory path then .ok tree else .error (.failed error path)

/-- What stands above the last part of a path, and that part; slashes at the end are passed over. -/
def splitPath (path : String) : String × String :=
  if Path.baseName path = "" then
    (Path.directory (Path.directory path), Path.baseName (Path.directory path))
  else (Path.directory path, Path.baseName path)

/-- Makes the last directory of a path. -/
def makeLastDirectory (tree : FileTree) (path : String) : Except FileFault Unit × FileTree :=
  match tree.ensureDirectory path with
  | .ok after => (.ok (), after)
  | .error fault => (.error fault, tree)

/-- Goes on below directories that were made or were there; a dot as last part stands for them. -/
def makeBelow (path : String) (above : Except FileFault Unit × FileTree) :
    Except FileFault Unit × FileTree :=
  let rest :=
    if (splitPath path).2 = "." then (.ok (), above.2) else above.2.makeLastDirectory path
  match above.1 with
  | .ok _ => rest
  | .error fault => if fault.isExisting then rest else (.error fault, above.2)

/-- Makes a directory and all that are missing above it. What was made before a failure stays. -/
def makeDirectories (tree : FileTree) (path : String) : Except FileFault Unit × FileTree :=
  let above := (splitPath path).1
  if above = "" ∨ (splitPath path).2 = "" ∨ tree.contains above then tree.makeLastDirectory path
  else if above.length < path.length then makeBelow path (tree.makeDirectories above)
  else tree.makeLastDirectory path
termination_by path.length

/-- Removes a file, or a directory with all that is in it. -/
def remove (tree : FileTree) (path : String) : Except FileFault FileTree :=
  if hasNull path then .error .nullByte
  else
    match tree.locate path with
    | .ok (location, _) => .ok (tree.erase location)
    | .error error => .error (.failed error path)

end FileTree
end ScriptKit
