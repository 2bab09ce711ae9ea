/-!
Paths as texts. Nothing here looks at files: a path is cut, joined and brought to normal form by its
slashes and dots alone.
-/
namespace ScriptKit.Path

/-- The parts between slashes; there is always at least one. -/
def parts : List Char → List (List Char)
  | [] => [[]]
  | char :: rest =>
    match parts rest with
    | [] => [[char]]
    | first :: others => if char = '/' then [] :: first :: others else (char :: first) :: others

def joinParts : List (List Char) → List Char
  | [] => []
  | [part] => part
  | part :: next :: rest => part ++ '/' :: joinParts (next :: rest)

/-- The parts that name something: neither empty nor a single dot. -/
def names (path : List Char) : List (List Char) :=
  (parts path).filter fun part => part ≠ [] ∧ part ≠ ['.']

def isUp (part : List Char) : Bool := part == ['.', '.']

/-- Lets every step up cancel the name before it. `kept` holds the names so far, the last one first;
above a root there is nothing to go up to. -/
def resolveUps (rooted : Bool) (kept : List (List Char)) : List (List Char) → List (List Char)
  | [] => kept.reverse
  | part :: rest =>
    if isUp part then
      match kept with
      | last :: before =>
        if isUp last then resolveUps rooted (part :: kept) rest else resolveUps rooted before rest
      | [] => if rooted then resolveUps rooted [] rest else resolveUps rooted [part] rest
    else resolveUps rooted (part :: kept) rest

/-- How many slashes a normal form starts with; exactly two stay two. -/
def leadingSlashes : List Char → Nat
  | '/' :: '/' :: '/' :: _ => 1
  | '/' :: '/' :: _ => 2
  | '/' :: _ => 1
  | _ => 0

def normalizeChars (path : List Char) : List Char :=
  let slashes := leadingSlashes path
  let body := joinParts (resolveUps (0 < slashes) [] (names path))
  let result := List.replicate slashes '/' ++ body
  if result.isEmpty then ['.'] else result

def normalize (path : String) : String := String.ofList (normalizeChars path.toList)

/-- The same way without empty parts and single dots; steps up stay. -/
def tidy (path : String) : String :=
  let chars := path.toList
  String.ofList (List.replicate (leadingSlashes chars) '/' ++ joinParts (names chars))

def isAbsolute (path : String) : Bool := path.toList.head? == some '/'

/-- The second path seen from the first; an absolute one stands for itself. -/
def join (base path : String) : String :=
  if isAbsolute path then path
  else if base.isEmpty ∨ base.toList.getLast? = some '/' then base ++ path
  else base ++ "/" ++ path

/-- The path that leads down from another one by some names. -/
def descend (path : String) (way : List String) : String := way.foldl join path

/-- The normal form of a path seen from a directory. -/
def absolute (directory path : String) : String :=
  normalize (if isAbsolute path then path else join directory path)

/-- The part after the last slash. -/
def baseChars (path : List Char) : List Char := (path.reverse.takeWhile (· != '/')).reverse

/-- All up to the last slash, with that slash. -/
def headChars (path : List Char) : List Char := (path.reverse.dropWhile (· != '/')).reverse

def baseName (path : String) : String := String.ofList (baseChars path.toList)

/-- All before the last part, without slashes at its end unless it is made of slashes. -/
def directory (path : String) : String :=
  let head := headChars path.toList
  let trimmed := (head.reverse.dropWhile (· == '/')).reverse
  String.ofList (if trimmed.isEmpty then head else trimmed)

/-- Cuts off the extension: the last dot of the last part and what follows, if the dot comes after a
character other than a dot. -/
def splitExtension (path : String) : String × String :=
  let chars := path.toList
  let base := baseChars chars
  let extension := (base.reverse.takeWhile (· != '.')).reverse
  let stem := base.take (base.length - extension.length - 1)
  if extension.length < base.length ∧ stem.any (· != '.') then
    (String.ofList (headChars chars ++ stem), String.ofList ('.' :: extension))
  else (path, "")

/-- How long two lists agree from their start. -/
def commonLength : List (List Char) → List (List Char) → Nat
  | first :: rest, other :: others => if first = other then commonLength rest others + 1 else 0
  | _, _ => 0

/-- The way from one absolute path to another: up to where they part, then down. -/
def relative (path start : String) : String :=
  let target := names (normalizeChars path.toList)
  let source := names (normalizeChars start.toList)
  let common := commonLength source target
  let steps := List.replicate (source.length - common) ['.', '.'] ++ target.drop common
  if steps.isEmpty then "." else String.ofList (joinParts steps)

end ScriptKit.Path
