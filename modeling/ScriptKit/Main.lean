import ScriptKit.CommandLine

/-!
The program. It reads the files around the current directory and around its arguments, lets the
command line work on them, and then writes what changed.
-/
namespace ScriptKit.Disk

def locationOf (path : String) : Location :=
  (Path.names path.toList).map String.ofList

def pathOf (location : Location) : String := "/" ++ "/".intercalate location

/-- Everything below a directory. Links to directories are not followed. -/
partial def below (tree : FileTree) (location : Location) : IO FileTree := do
  let mut files := tree
  for entry in ← ((← IO.currentDir) / pathOf location).readDir do
    let place := location ++ [entry.fileName]
    match (← entry.path.symlinkMetadata).type with
    | .dir => files ← below (files.insert place .directory) place
    | .symlink =>
      if (← entry.path.pathExists) && !(← entry.path.isDir) then
        files := files.insert place (.file (← IO.FS.readBinFile entry.path))
    | .file => files := files.insert place (.file (← IO.FS.readBinFile entry.path))
    | .other => pure ()
  return files

/-- The directories on the way to a location, the location included. -/
def onTheWay (tree : FileTree) (location : Location) : FileTree :=
  (List.range location.length).foldl (fun files depth =>
    files.insert (location.take (depth + 1)) .directory) tree

def snapshot (directory : String) (arguments : List String) : IO FileTree := do
  let mut files ← below (onTheWay .empty (locationOf directory)) (locationOf directory)
  for argument in arguments do
    let place := Path.directory (Path.absolute directory argument)
    if !files.contains place && (← ((← IO.currentDir) / place).isDir) then
      files ← below (onTheWay files (locationOf place)) (locationOf place)
  return files

/-- Makes new directories, then writes files that are new or changed. -/
def store (before after : FileTree) : IO Unit := do
  let directory ← IO.currentDir
  let changed := after.entries.filter fun (location, entry) => before.get? location ≠ some entry
  for (location, entry) in changed do
    match entry with
    | .directory => IO.FS.createDirAll (directory / pathOf location)
    | .file _ => pure ()
  for (location, entry) in changed do
    match entry with
    | .directory => pure ()
    | .file content => IO.FS.writeBinFile (directory / pathOf location) content

end ScriptKit.Disk

open ScriptKit in
def main (arguments : List String) : IO UInt32 := do
  let directory := (← IO.currentDir).toString
  let files ← Disk.snapshot directory arguments
  let (outcome, workspace) :=
    (CommandLine.execute arguments).run.run ⟨files, directory, "", ""⟩
  Disk.store files workspace.files
  IO.print workspace.output
  IO.eprint workspace.errors
  match outcome with
  | .ok (.returned status) => return status.toUInt32
  | .ok (.exited status) => return status.toUInt32
  | .error failure =>
    IO.eprintln failure.message
    return 1
