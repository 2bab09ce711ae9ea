import ScriptKit.Text.DecimalDigit
import ScriptKit.Text.Quoted

/-!
The words of a command line. A word is an operand or a switch; two hyphens end the switches. Every
command knows the help switch, some know the output directory, and a command takes at most one
operand.
-/
namespace ScriptKit.CommandLine

inductive Switch where
  | help
  | outDir
deriving DecidableEq, Repr

namespace Switch

/-- Both spellings, as complaints name the switch. -/
def title : Switch → String
  | .help => "-h/--help"
  | .outDir => "-o/--out-dir"

end Switch

inductive Operand where
  | none
  | atMostOne (name : String)
  | one (name : String)
deriving DecidableEq, Repr

/-- What a command accepts. -/
structure Grammar where
  program : String
  operand : Operand
  takesOutDir : Bool

namespace Grammar

def spellings (grammar : Grammar) : List (String × Switch) :=
  [("-h", .help), ("--help", .help)] ++
    if grammar.takesOutDir then [("-o", .outDir), ("--out-dir", .outDir)] else []

def switch? (grammar : Grammar) (spelling : List Char) : Option Switch :=
  grammar.spellings.lookup (String.ofList spelling)

end Grammar

/-- A switch may have a value attached, in the same word. -/
inductive Word where
  | operand (text : String)
  | separator
  | unknown (text : String)
  | switch (switch : Switch) (short : Bool) (attached : Option (List Char))
deriving DecidableEq, Repr

inductive Misuse where
  | ambiguous (word : String) (spellings : List String)
  | valueExpected (switch : Switch)
  | valueIgnored (switch : Switch) (value : String)
  | missing (name : String)
  | unrecognized (words : List String)
deriving DecidableEq, Repr

namespace Misuse

def message : Misuse → String
  | .ambiguous word spellings =>
    s!"ambiguous option: {word} could match " ++ ", ".intercalate spellings
  | .valueExpected switch => s!"argument {switch.title}: expected one argument"
  | .valueIgnored switch value =>
    s!"argument {switch.title}: ignored explicit argument {Text.shown value}"
  | .missing name => "the following arguments are required: " ++ name
  | .unrecognized words => "unrecognized arguments: " ++ " ".intercalate words

end Misuse

/-- Cuts a word at its first equals sign. -/
def cutAtEquals (word : List Char) : List Char × Option (List Char) :=
  match word.dropWhile (· != '=') with
  | [] => (word, none)
  | _ :: value => (word.takeWhile (· != '='), some value)

/-- One or more digits after a hyphen, with at most one point, which is not last. A line end may
follow. -/
def isNegativeNumber (word : List Char) : Bool :=
  match word with
  | '-' :: rest =>
    let body := if rest.getLast? = some '\n' then rest.dropLast else rest
    match body.dropWhile Text.isDecimalDigit with
    | [] => !body.isEmpty
    | '.' :: fraction => !fraction.isEmpty && fraction.all Text.isDecimalDigit
    | _ => false
  | _ => false

/-- A word that starts with a hyphen but spells no switch. -/
def otherWord (word : List Char) : Word :=
  if isNegativeNumber word || word.contains ' ' then .operand (String.ofList word)
  else .unknown (String.ofList word)

/-- A long switch may be cut short as long as one spelling is left. -/
def abbreviated (grammar : Grammar) (word : List Char) : Except Misuse Word :=
  let (start, attached) := cutAtEquals word
  match grammar.spellings.filter fun (spelling, _) => start.isPrefixOf spelling.toList with
  | [] => .ok (otherWord word)
  | [(_, switch)] => .ok (.switch switch false attached)
  | several => .error (.ambiguous (String.ofList word) (several.map Prod.fst))

def hyphened (grammar : Grammar) (word : List Char) : Except Misuse Word :=
  match word with
  | '-' :: '-' :: _ => abbreviated grammar word
  | '-' :: letter :: value =>
    match grammar.switch? ['-', letter] with
    | some switch => .ok (.switch switch true (some value))
    | none => .ok (otherWord word)
  | _ => .ok (.operand (String.ofList word))

def isShort (spelling : List Char) : Bool := spelling.length = 2

/-- What a word is that stands before any separator. -/
def classify (grammar : Grammar) (text : String) : Except Misuse Word :=
  let word := text.toList
  if word.head? ≠ some '-' then .ok (.operand text)
  else
    match grammar.switch? word with
    | some switch => .ok (.switch switch (isShort word) none)
    | none =>
      match cutAtEquals word with
      | (start, some attached) =>
        match grammar.switch? start with
        | some switch => .ok (.switch switch (isShort start) (some attached))
        | none => hyphened grammar word
      | (_, none) => hyphened grammar word

def classifyAll (grammar : Grammar) : List String → Except Misuse (List Word)
  | [] => .ok []
  | text :: rest =>
    if text = "--" then .ok (.separator :: rest.map .operand)
    else do
      let word ← classify grammar text
      let words ← classifyAll grammar rest
      return word :: words

namespace Word

def text? : Word → Option String
  | .operand text => some text
  | .separator => some "--"
  | .unknown text => some text
  | .switch .. => none

end Word

/-- What was found so far. `wanted` tells whether an operand is still wanted. -/
structure Found where
  wanted : Bool
  operand : Option String
  outDir : Option String
  extras : List String

inductive Request where
  | help
  | run (operand outDir : Option String)
deriving DecidableEq, Repr

/-- The rest of a word that started with the short help switch: more short switches, the last of
which may have its value attached. Help is shown unless one of them is unknown or lacks a value. -/
def clustered (grammar : Grammar) (rest : List Char) (operandFollows : Bool) :
    Except Misuse Request :=
  match rest with
  | [] => .ok .help
  | letter :: value =>
    match grammar.switch? ['-', letter] with
    | none => .error (.valueIgnored .help (String.ofList rest))
    | some .help => clustered grammar value operandFollows
    | some .outDir =>
      if value.isEmpty && !operandFollows then .error (.valueExpected .outDir) else .ok .help

def helpRequest (grammar : Grammar) (short : Bool) (attached : Option (List Char))
    (operandFollows : Bool) : Except Misuse Request :=
  match attached with
  | none => .ok .help
  | some text =>
    if short && !text.isEmpty then clustered grammar text operandFollows
    else .error (.valueIgnored .help (String.ofList text))

/-- An attached value; two hyphens stand for no value. -/
def attachedValue? (text : List Char) : Option String :=
  if text = ['-', '-'] then none else some (String.ofList text)

def startsWithOperand : List Word → Bool
  | .operand _ :: _ => true
  | _ => false

def dropSeparator : List Word → List Word
  | .separator :: rest => rest
  | words => words

theorem length_dropSeparator_le (words : List Word) :
    (dropSeparator words).length ≤ words.length := by
  unfold dropSeparator
  split <;> simp

/-- The request once all words are read: a missing operand is complained about before words nobody
wanted. -/
def finish (grammar : Grammar) (found : Found) : Except Misuse Request :=
  match grammar.operand, found.operand with
  | .one name, none => .error (.missing name)
  | _, _ =>
    if found.extras.isEmpty then .ok (.run found.operand found.outDir)
    else .error (.unrecognized found.extras)

/-- Reads the words from left to right. The wanted operand takes a separator beside it along. -/
def readWords (grammar : Grammar) (found : Found) (words : List Word) :
    Except Misuse Request :=
  match words with
  | [] => finish grammar found
  | .unknown text :: rest =>
    readWords grammar { found with extras := found.extras ++ [text] } rest
  | .operand text :: rest =>
    if found.wanted then
      readWords grammar { found with wanted := false, operand := some text } (dropSeparator rest)
    else readWords grammar { found with extras := found.extras ++ [text] } rest
  | .separator :: rest =>
    match grammar.operand, found.wanted, rest with
    | _, true, .operand text :: others =>
      finish grammar { found with
        operand := some text, extras := found.extras ++ others.filterMap Word.text? }
    | .atMostOne _, true, _ => finish grammar found
    | _, _, _ =>
      finish grammar { found with
        extras := found.extras ++ "--" :: rest.filterMap Word.text? }
  | .switch .help short attached :: rest =>
    helpRequest grammar short attached (startsWithOperand rest)
  | .switch .outDir _ (some attached) :: rest =>
    readWords grammar { found with outDir := attachedValue? attached } rest
  | .switch .outDir _ none :: .operand text :: rest =>
    readWords grammar { found with outDir := some text } rest
  | .switch .outDir _ none :: _ => .error (.valueExpected .outDir)
termination_by words.length
decreasing_by
  all_goals simp only [List.length_cons]
  all_goals try omega
  all_goals
    have := length_dropSeparator_le rest
    omega

def request (grammar : Grammar) (arguments : List String) : Except Misuse Request := do
  let words ← classifyAll grammar arguments
  readWords grammar ⟨grammar.operand != .none, none, none, []⟩ words

end ScriptKit.CommandLine
