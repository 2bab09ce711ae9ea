import ScriptKit.Error
import ScriptKit.Token

/-!
Reading a text as tokens. A text is a gap, then a lexeme, then a gap, and so on: gaps are white space
and comments up to the end of their line, and each lexeme is the longest that can start where it
does.
-/
namespace ScriptKit

def isSpace (char : Char) : Bool :=
  char == ' ' || char == '\t' || char == '\x0c' || char == '\r' || char == '\n'

def isNameStart (char : Char) : Bool := char.isAlpha || char == '_'

def isNameChar (char : Char) : Bool := char.isAlphanum || char == '_'

/-- The length of the gap a text starts with; inside a comment all up to the line feed is gap. -/
def gapLength (comment : Bool) : List Char → Nat
  | [] => 0
  | char :: rest =>
    if comment then gapLength (char != '\n') rest + 1
    else if isSpace char then gapLength false rest + 1
    else if char = '/' ∧ rest.head? = some '/' then gapLength true rest + 1
    else 0

/-- The forms of lexemes, before their text is read as a value. -/
inductive Terminal where
  | integer
  | decimal
  | string
  | word
  | symbol (sign : Symbol)
deriving DecidableEq, Repr

def symbolAt? : List Char → Option Symbol
  | '=' :: '=' :: _ => some .equals
  | '!' :: '=' :: _ => some .notEquals
  | '>' :: '=' :: _ => some .greaterEquals
  | '<' :: '=' :: _ => some .lessEquals
  | '&' :: '&' :: _ => some .and
  | '|' :: '|' :: _ => some .or
  | '=' :: _ => some .assign
  | '>' :: _ => some .greater
  | '<' :: _ => some .less
  | '+' :: _ => some .plus
  | '-' :: _ => some .minus
  | '*' :: _ => some .multiply
  | '/' :: _ => some .divide
  | '%' :: _ => some .modulo
  | '(' :: _ => some .leftParen
  | ')' :: _ => some .rightParen
  | '\x7b' :: _ => some .leftBrace
  | '\x7d' :: _ => some .rightBrace
  | ';' :: _ => some .semicolon
  | ',' :: _ => some .comma
  | _ => none

/-- The form and the length of the lexeme a text starts with. A string has to be closed. -/
def terminalAt? : List Char → Option (Terminal × Nat)
  | [] => none
  | char :: rest =>
    if char.isDigit then
      let whole := (rest.takeWhile Char.isDigit).length + 1
      match rest.dropWhile Char.isDigit with
      | '.' :: fraction => some (.decimal, whole + 1 + (fraction.takeWhile Char.isDigit).length)
      | _ => some (.integer, whole)
    else if isNameStart char then some (.word, (rest.takeWhile isNameChar).length + 1)
    else if char = '"' then
      let body := rest.takeWhile (· != '"')
      if body.length < rest.length then some (.string, body.length + 2) else none
    else
      match symbolAt? (char :: rest) with
      | some sign => some (.symbol sign, sign.text.length)
      | none => none

/-- The word `true`, the word `false`, a keyword or a name. -/
def Lexeme.ofWord (word : String) : Lexeme :=
  if word = "true" then .boolean true
  else if word = "false" then .boolean false
  else
    match Keyword.all.find? fun candidate => candidate.text == word with
    | some reserved => .keyword reserved
    | none => .identifier word

inductive LexFault where
  | unexpected (position : Position) (char : Char)
  | oversizedInteger (digits : Nat)
deriving DecidableEq

/-- Integers may have this many digits, leading zeros included. -/
def integerDigitLimit : Nat := 4300

def Terminal.read (terminal : Terminal) (text : List Char) : Except LexFault Lexeme :=
  match terminal with
  | .integer =>
    if integerDigitLimit < text.length then .error (.oversizedInteger text.length)
    else .ok (.number (.integer (natOfDigits text)))
  | .decimal =>
    let whole := text.takeWhile Char.isDigit
    let fraction := (text.dropWhile Char.isDigit).drop 1
    let decimal : Decimal := ⟨natOfDigits (whole ++ fraction), -(fraction.length : Int)⟩
    .ok (.number (.double (decimal.toDouble false)))
  | .string => .ok (.string (String.ofList (text.drop 1).dropLast))
  | .word => .ok (Lexeme.ofWord (String.ofList text))
  | .symbol sign => .ok (.symbol sign)

theorem Symbol.text_length_pos (symbol : Symbol) : 0 < symbol.text.length := by
  cases symbol <;> decide

theorem terminalAt?_length_pos {text : List Char} {terminal : Terminal} {length : Nat}
    (found : terminalAt? text = some (terminal, length)) : 0 < length := by
  have := Symbol.text_length_pos
  unfold terminalAt? at found
  grind

theorem rest_length_lt {source text : List Char} {gap length : Nat} {terminal : Terminal}
    (remaining : source.drop gap = text) (found : terminalAt? text = some (terminal, length)) :
    (text.drop length).length < source.length := by
  have positive := terminalAt?_length_pos found
  have nonempty : text ≠ [] := by
    rintro rfl
    simp [terminalAt?] at found
  have := List.length_pos_iff.mpr nonempty
  have := congrArg List.length remaining
  simp only [List.length_drop] at this ⊢
  omega

/-- The tokens of a text that starts at `position`. -/
def tokensFrom (position : Position) (source : List Char) : Except LexFault TokenStream :=
  let gap := gapLength false source
  let place := position.advance (source.take gap)
  match remaining : source.drop gap with
  | [] => .ok ⟨[], place⟩
  | char :: rest =>
    match found : terminalAt? (char :: rest) with
    | none => .error (.unexpected place char)
    | some (terminal, length) => do
      have := rest_length_lt remaining found
      let text := (char :: rest).take length
      let lexeme ← terminal.read text
      let following ← tokensFrom (place.advance text) ((char :: rest).drop length)
      return ⟨⟨lexeme, place⟩ :: following.tokens, following.stop⟩
termination_by source.length
decreasing_by simpa using this

namespace TokenStream

def ofSource (source : String) : Except LexFault TokenStream :=
  tokensFrom .start source.toList

end TokenStream

/-- A double quote that starts no lexeme is a string that is never closed. -/
def lexError (position : Position) (char : Char) : Error where
  phase := .lexing
  cause := if char = '"' then .unterminatedString else .invalidCharacter (String.singleton char)
  span := some ⟨position, ⟨position.line, position.column + 1⟩⟩
  file := none

end ScriptKit
