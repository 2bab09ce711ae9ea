import ScriptKit.Workspace

/-!
The entries of a file tree that a pattern selects.
-/
namespace ScriptKit.Pattern

/-- What a path leads to, if it leads anywhere. One that is too long to look up is a failure. -/
def look (tree : FileTree) (path : String) : Except Failure (Option (Location × Entry)) :=
  if FileTree.hasNull path then .ok none
  else
    match tree.locate path with
    | .ok found => .ok (some found)
    | .error .nameTooLong => .error (.file .nameTooLong path)
    | .error _ => .ok none

/-- Whether a path leads to an entry of the wanted kind. -/
def found (tree : FileTree) (wanted : Entry → Bool) (path : String) : Except Failure Bool := do
  let entry ← look tree path
  return entry.any fun (_, entry) => wanted entry

/-- The paths below a directory that a pattern selects and that are worth keeping. Each one is decided
about before the search goes on. -/
def select (tree : FileTree) (keep : String → Except Failure Bool) :
    List Part → String → Except Failure (List String)
  | [], path => do
    if ← keep path then return [path] else return []
  | .closing :: _, path => do
    if ← keep path then return [path] else return []
  | .exact name :: rest, path => do
    let child := Path.join path name
    if ← found tree (fun entry => rest.isEmpty || entry.isDirectory) child then
      select tree keep rest child
    else return []
  | .wild pattern :: rest, path => do
    match ← look tree path with
    | none => return []
    | some (location, _) =>
      let entries := (tree.children location).filter fun (name, entry) =>
        (rest.isEmpty || entry.isDirectory) && fits pattern name.toList
      let chosen ← entries.mapM fun (name, _) => select tree keep rest (Path.join path name)
      return chosen.flatten
  | .deep :: rest, path => do
    match ← look tree path with
    | none => return []
    | some (location, _) =>
      let chosen ← (tree.directoriesBelow location).mapM fun below =>
        select tree keep rest (Path.descend path below)
      return chosen.flatten

end ScriptKit.Pattern
