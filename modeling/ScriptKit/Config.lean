import ScriptKit.Json.Reader
import ScriptKit.Text.Blank
import ScriptKit.Workspace

/-!
The configuration of a project: where its sources are, where the output goes and which files are its
entries. A document is checked field by field, and all complaints are collected. Its strings need not
be texts.
-/
namespace ScriptKit

def configFileName : String := "asconfig.json"

/-- A configuration with strings of a kind. -/
structure ConfigOf (α : Type) where
  rootDir : α
  outDir : α
  patterns : List α
  files : Option (List α)
  strict : Bool
deriving DecidableEq, Repr

abbrev Config := ConfigOf String

abbrev LooseConfig := ConfigOf (List Point)

structure Complaint where
  place : String
  reason : String
deriving DecidableEq, Repr

namespace Complaint

def message (complaint : Complaint) : String := complaint.place ++ ": " ++ complaint.reason

end Complaint

namespace Config

def default : Config := ⟨"src", "dist", ["**/*.as"], none, true⟩

/-- Why a document is no configuration: the complaints about it, or one that has no encoding. -/
inductive Refusal where
  | complaints (all : List Complaint)
  | unencodable (fault : EncodingFault)

/-- A field that is left out has its default; what is there has to pass the check. -/
def checked {ε α : Type} (missing : α) (check : String → Json → Except ε α) :
    Option (String × Json) → Except ε α
  | none => .ok missing
  | some (place, value) => check place value

/-- The value of a field under the first of its names that the document has. -/
def lookup? (document : Json) : List String → Option (String × Json)
  | [] => none
  | name :: others =>
    match document.field? name with
    | some value => some (name, value)
    | none => lookup? document others

def checkText (place : String) : Json → Except (List Complaint) (List Point)
  | .string text => .ok (Text.toPoints text)
  | .loose points => .ok points
  | _ => .error [⟨place, "Input should be a valid string"⟩]

/-- Checks the items of a list, the first one at `index`. -/
def checkItems (place : String) (index : Nat) :
    List Json → Except (List Complaint) (List (List Point))
  | [] => .ok []
  | item :: rest =>
    match checkText (place ++ "." ++ toString index) item, checkItems place (index + 1) rest with
    | .ok text, .ok texts => .ok (text :: texts)
    | .ok _, .error complaints => .error complaints
    | .error complaints, .ok _ => .error complaints
    | .error first, .error others => .error (first ++ others)

def checkTexts (place : String) : Json → Except (List Complaint) (List (List Point))
  | .array items => checkItems place 0 items
  | _ => .error [⟨place, "Input should be a valid list"⟩]

/-- What is wrong with a pattern: it is blank, or it starts with a slash of either kind. -/
def patternTrouble? (pattern : List Point) : Option (List Point) :=
  if pattern.all fun point => point.char?.any Text.isBlank then
    some (Text.toPoints "include patterns must not be empty")
  else if pattern.head? = some (.char '/') ∨ pattern.head? = some (.char '\\') then
    some (Text.toPoints "include pattern '" ++ pattern ++
      Text.toPoints "' must be relative to rootDir")
  else none

/-- Checks the patterns. The trouble with a pattern is no complaint if it has no encoding. -/
def checkPatterns (place : String) (value : Json) :
    Except EncodingFault (Except (List Complaint) (List (List Point))) :=
  match checkTexts place value with
  | .error complaints => return .error complaints
  | .ok patterns =>
    match patterns.findSome? patternTrouble? with
    | some trouble => do
      let reason ← Text.ofPoints trouble
      return .error [⟨place, "Value error, " ++ reason⟩]
    | none => return .ok patterns

def checkFiles (place : String) : Json → Except (List Complaint) (Option (List (List Point)))
  | .null => .ok none
  | value => (checkTexts place value).map some

def affirmations : List String := ["1", "on", "t", "true", "y", "yes"]

def negations : List String := ["0", "off", "f", "false", "n", "no"]

/-- A truth value, also spelt as a number or a word. -/
def checkTruth (place : String) (value : Json) : Except (List Complaint) Bool :=
  let notTruth := Except.error [⟨place, "Input should be a valid boolean"⟩]
  let unclear :=
    Except.error [⟨place, "Input should be a valid boolean, unable to interpret input"⟩]
  let ofWhole (least number : Int) :=
    if number = 0 then .ok false
    else if number = 1 then .ok true
    else if least ≤ number ∧ number < Int.pow 2 63 then unclear
    else notTruth
  match value with
  | .boolean truth => .ok truth
  | .integer number => ofWhole (-Int.pow 2 63) number
  | .double number =>
    -- The least integer of its size is none that a double is taken for.
    match number.toInt? with
    | some whole => ofWhole (1 - Int.pow 2 63) whole
    | none => notTruth
  | .string text =>
    let word := text.map Char.toLower
    if affirmations.contains word then .ok true
    else if negations.contains word then .ok false
    else unclear
  | .loose _ =>
    .error [⟨place, "Input should be a valid string, unable to parse raw data as a unicode string"⟩]
  | _ => notTruth

def complaintsOf {α : Type} : Except (List Complaint) α → List Complaint
  | .ok _ => []
  | .error complaints => complaints

/-- Reads a configuration from a document; unknown fields are ignored. -/
def ofJson (document : Json) : Except Refusal LooseConfig :=
  match document with
  | .object _ => do
    let rootDir := checked (Text.toPoints default.rootDir) checkText
      (lookup? document ["rootDir", "root_dir"])
    let outDir := checked (Text.toPoints default.outDir) checkText
      (lookup? document ["outDir", "out_dir"])
    let patterns ← (checked (.ok (default.patterns.map Text.toPoints)) checkPatterns
      (lookup? document ["include"])).mapError Refusal.unencodable
    let files := checked none checkFiles (lookup? document ["files"])
    let strict := checked default.strict checkTruth (lookup? document ["strict"])
    match rootDir, outDir, patterns, files, strict with
    | .ok rootDir, .ok outDir, .ok patterns, .ok files, .ok strict =>
      .ok ⟨rootDir, outDir, patterns, files, strict⟩
    | rootDir, outDir, patterns, files, strict =>
      .error (.complaints (complaintsOf rootDir ++ complaintsOf outDir ++ complaintsOf patterns ++
        complaintsOf files ++ complaintsOf strict))
  | _ =>
    .error (.complaints
      [⟨"config", "Input should be a valid dictionary or instance of ProjectConfig"⟩])

/-- The document of a configuration; an absent list of files is left out. -/
def toJson (config : Config) : Json :=
  .object ([("rootDir", .string config.rootDir), ("outDir", .string config.outDir),
    ("include", .array (config.patterns.map .string))] ++
    (match config.files with
      | none => []
      | some files => [("files", .array (files.map .string))]) ++
    [("strict", .boolean config.strict)])

/-- Reads the configuration in a file. -/
def read (workspace : Workspace) (path : String) : Except Failure LooseConfig := do
  let trouble (cause : Cause) : Failure := .reported ⟨.configuring, cause, none, none⟩
  let content ←
    match workspace.read path with
    | .ok content => pure content
    | .error (.failed .notFound _) => throw (trouble (.configNotFound path))
    | .error fault => throw (Failure.ofFile fault)
  let text ← (Text.ofFile content).mapError Failure.undecodable
  match Json.ofText text with
  | .error (.unreadable reason rest) =>
    throw (trouble (.configInvalidJson path (reason ++ Json.placeText text.toList rest)))
  | .error (.oversizedInteger digits) => throw (.oversizedInteger digits)
  | .ok document =>
    (ofJson document).mapError fun
      | .complaints all =>
        trouble (.configInvalid path ("; ".intercalate (all.map Complaint.message)))
      | .unencodable fault => .unencodable fault

/-- The string, if it is a text. -/
def nameOf (points : List Point) : Except Failure String :=
  (Text.ofPoints points).mapError fun _ => .unnameable points

def ofLoose (config : LooseConfig) : Except Failure Config :=
  return ⟨← nameOf config.rootDir, ← nameOf config.outDir, ← config.patterns.mapM nameOf,
    ← config.files.mapM (·.mapM nameOf), config.strict⟩

/-- Reads the configuration of a project, all of whose names have to be texts. -/
def load (workspace : Workspace) (path : String) : Except Failure Config := do
  ofLoose (← read workspace path)

/-- Writes the default configuration, unless something is there already. -/
def createDefault (workspace : Workspace) (path : String) : Except Failure (Bool × Workspace) :=
  if workspace.files.contains (workspace.rooted path) then .ok (false, workspace)
  else
    match workspace.write path (Json.indented 0 default.toJson) with
    | .ok written => .ok (true, written)
    | .error fault => .error (Failure.ofFile fault)

end Config
end ScriptKit
