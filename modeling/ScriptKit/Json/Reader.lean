import ScriptKit.Json
import ScriptKit.Token.Stream

/-!
Reading JSON documents. A fault says what was expected and how much of the text is left from the
place it is about; the last of several fields with one key counts, and fields whose key is no text are
passed over.
-/
namespace ScriptKit

inductive JsonFault where
  | unreadable (reason : String) (rest : List Char)
  | oversizedInteger (digits : Nat)
deriving DecidableEq

/-- A value read from a text, with fewer than `bound` characters left. -/
structure JsonRead (α : Type) (bound : Nat) where
  value : α
  rest : List Char
  within : rest.length < bound

theorem JsonRead.rest_lt {α : Type} {bound : Nat} (read : JsonRead α bound) :
    read.rest.length < bound := read.within

grind_pattern JsonRead.rest_lt => read.rest

namespace Json

def isGap (char : Char) : Bool := char == ' ' || char == '\t' || char == '\n' || char == '\r'

def skipGap (text : List Char) : List Char := text.dropWhile isGap

theorem length_dropWhile_le (test : Char → Bool) (text : List Char) :
    (text.dropWhile test).length ≤ text.length :=
  (List.dropWhile_sublist test).length_le

theorem length_skipGap_le (text : List Char) : (skipGap text).length ≤ text.length :=
  length_dropWhile_le isGap text

grind_pattern length_skipGap_le => skipGap text

def hexValue? (char : Char) : Option Nat :=
  if char.isDigit then some (char.toNat - '0'.toNat)
  else if 'a' ≤ char ∧ char ≤ 'f' then some (char.toNat - 'a'.toNat + 10)
  else if 'A' ≤ char ∧ char ≤ 'F' then some (char.toNat - 'A'.toNat + 10)
  else none

/-- The number of four hexadecimal digits that have some text after them. -/
def readUnit? : List Char → Option (Nat × List Char)
  | a :: b :: c :: d :: next :: rest => do
    let first ← hexValue? a
    let second ← hexValue? b
    let third ← hexValue? c
    let fourth ← hexValue? d
    return (((first * 16 + second) * 16 + third) * 16 + fourth, next :: rest)
  | _ => none

theorem readUnit?_length {text rest : List Char} {unit : Nat}
    (found : readUnit? text = some (unit, rest)) : rest.length + 4 = text.length := by
  unfold readUnit? at found
  split at found
  · simp only [Option.bind_eq_bind, Option.pure_def, Option.bind_eq_some_iff, Option.some.injEq,
      Prod.mk.injEq] at found
    obtain ⟨_, _, _, _, _, _, _, _, _, rfl⟩ := found
    simp
  · contradiction

def isHighSurrogate (unit : Nat) : Bool := 0xd800 ≤ unit && unit ≤ 0xdbff

def isLowSurrogate (unit : Nat) : Bool := 0xdc00 ≤ unit && unit ≤ 0xdfff

def joinSurrogates (high low : Nat) : Char :=
  Char.ofNat (0x10000 + (high - 0xd800) * 0x400 + (low - 0xdc00))

def escaped? : Char → Option Char
  | '"' => some '"'
  | '\\' => some '\\'
  | '/' => some '/'
  | 'b' => some '\x08'
  | 'f' => some '\x0c'
  | 'n' => some '\n'
  | 'r' => some '\r'
  | 't' => some '\t'
  | _ => none

/-- The points of a string up to its closing quote. `opening` is the text from the opening quote
on, where a string that is never closed is reported. -/
def readString (opening text : List Char) :
    Except JsonFault (JsonRead (List Point) text.length) :=
  match text with
  | [] => .error (.unreadable "Unterminated string starting at" opening)
  | '"' :: rest => .ok ⟨[], rest, by simp⟩
  | '\\' :: [] => .error (.unreadable "Unterminated string starting at" opening)
  | '\\' :: 'u' :: rest =>
    match found : readUnit? rest with
    | none => .error (.unreadable "Invalid \\uXXXX escape" ('u' :: rest))
    | some (unit, '\\' :: 'u' :: pair) =>
      have := readUnit?_length found
      if isHighSurrogate unit && decide (5 ≤ pair.length) then
        match foundLow : readUnit? pair with
        | none => .error (.unreadable "Invalid \\uXXXX escape" ('u' :: pair))
        | some (low, after) =>
          have := readUnit?_length foundLow
          if isLowSurrogate low then do
            let more ← readString opening after
            return ⟨.char (joinSurrogates unit low) :: more.value, more.rest, by grind⟩
          else do
            let more ← readString opening ('\\' :: 'u' :: pair)
            return ⟨.ofUnit unit :: more.value, more.rest, by grind⟩
      else do
        let more ← readString opening ('\\' :: 'u' :: pair)
        return ⟨.ofUnit unit :: more.value, more.rest, by grind⟩
    | some (unit, after) =>
      have := readUnit?_length found
      do
        let more ← readString opening after
        return ⟨.ofUnit unit :: more.value, more.rest, by grind⟩
  | '\\' :: char :: rest =>
    match escaped? char with
    | none => .error (.unreadable "Invalid \\escape" ('\\' :: char :: rest))
    | some plain => do
      let more ← readString opening rest
      return ⟨.char plain :: more.value, more.rest, by grind⟩
  | char :: rest =>
    if char.toNat < 0x20 then .error (.unreadable "Invalid control character at" (char :: rest))
    else do
      let more ← readString opening rest
      return ⟨.char char :: more.value, more.rest, by grind⟩
termination_by text.length
decreasing_by all_goals grind

/-- The digits of an exponent with its sign, and what follows; none if there are no digits. -/
def readExponent? : List Char → Option (Int × List Char)
  | [] => none
  | mark :: rest =>
    if mark = 'e' ∨ mark = 'E' then
      let negative := rest.head? = some '-'
      let digits := if negative ∨ rest.head? = some '+' then rest.drop 1 else rest
      let exponent := digits.takeWhile Char.isDigit
      if exponent.isEmpty then none
      else
        let size : Int := natOfDigits exponent
        some (if negative then -size else size, digits.dropWhile Char.isDigit)
    else none

/-- The digits after a point, and what follows; there has to be one. -/
def readFraction? : List Char → Option (List Char × List Char)
  | '.' :: rest =>
    let digits := rest.takeWhile Char.isDigit
    if digits.isEmpty then none else some (digits, rest.dropWhile Char.isDigit)
  | _ => none

/-- The digits of a whole part, which starts with zero only if it is zero, and what follows. -/
def readWhole? : List Char → Option (List Char × List Char)
  | [] => none
  | digit :: rest =>
    if digit = '0' then some ([digit], rest)
    else if digit.isDigit then
      some (digit :: rest.takeWhile Char.isDigit, rest.dropWhile Char.isDigit)
    else none

/-- A number, and what follows; it is an integer when it has neither fraction nor exponent. Integers
may have as many digits as the limit says. -/
def readNumber? (limit : Option Nat) (text : List Char) :
    Option (Except JsonFault Json × List Char) := do
  let negative := text.head? = some '-'
  let (whole, afterWhole) ← readWhole? (if negative then text.drop 1 else text)
  let fraction := readFraction? afterWhole
  let afterFraction := (fraction.map Prod.snd).getD afterWhole
  let exponent := readExponent? afterFraction
  let rest := (exponent.map Prod.snd).getD afterFraction
  if fraction.isNone ∧ exponent.isNone then
    if limit.any (· < whole.length) then
      return (.error (.oversizedInteger whole.length), rest)
    else
      let size : Int := natOfDigits whole
      return (.ok (.integer (if negative then -size else size)), rest)
  else
    let decimals := (fraction.map Prod.fst).getD []
    let decimal : Decimal :=
      ⟨natOfDigits (whole ++ decimals), (exponent.map Prod.fst).getD 0 - decimals.length⟩
    return (.ok (.double (decimal.toDouble negative)), rest)

/-- The words that are values by themselves. -/
def words : List (List Char × Json) :=
  [(['n', 'u', 'l', 'l'], .null), (['t', 'r', 'u', 'e'], .boolean true),
    (['f', 'a', 'l', 's', 'e'], .boolean false), (['N', 'a', 'N'], .double .nan),
    (['I', 'n', 'f', 'i', 'n', 'i', 't', 'y'], .double (.infinite false)),
    (['-', 'I', 'n', 'f', 'i', 'n', 'i', 't', 'y'], .double (.infinite true))]

/-- A word or a number; the rest counts only if something was read. -/
def readScalar (limit : Option Nat) (text : List Char) :
    Except JsonFault (JsonRead Json text.length) :=
  let word := words.find? fun entry => entry.1.isPrefixOf text
  let result : Except JsonFault (Json × List Char) :=
    match word, readNumber? limit text with
    | some (spelling, value), _ => .ok (value, text.drop spelling.length)
    | none, some (.ok value, rest) => .ok (value, rest)
    | none, some (.error fault, _) => .error fault
    | none, none => .error (.unreadable "Expecting value" text)
  match result with
  | .error fault => .error fault
  | .ok (value, rest) =>
    if within : rest.length < text.length then .ok ⟨value, rest, within⟩
    else .error (.unreadable "Expecting value" text)

mutual

def readValue (limit : Option Nat) (text : List Char) :
    Except JsonFault (JsonRead Json text.length) :=
  match text with
  | '"' :: rest => do
    let string ← readString ('"' :: rest) rest
    return ⟨ofPoints string.value, string.rest, by grind⟩
  | '\x7b' :: rest =>
    match gap : skipGap rest with
    | '\x7d' :: after => .ok ⟨.object [], after, by grind⟩
    | body => do
      let fields ← readFields limit [] body
      return ⟨.object fields.value, fields.rest, by grind⟩
  | '[' :: rest =>
    match gap : skipGap rest with
    | ']' :: after => .ok ⟨.array [], after, by grind⟩
    | body => do
      let items ← readItems limit body
      return ⟨.array items.value, items.rest, by grind⟩
  | text => readScalar limit text
termination_by (text.length, 0)
decreasing_by all_goals grind

/-- The items of an array up to its closing bracket. -/
def readItems (limit : Option Nat) (text : List Char) :
    Except JsonFault (JsonRead (List Json) text.length) := do
  let item ← readValue limit text
  match gap : skipGap item.rest with
  | ']' :: after => return ⟨[item.value], after, by grind⟩
  | ',' :: after => do
    let items ← readItems limit (skipGap after)
    return ⟨item.value :: items.value, items.rest, by grind⟩
  | other => .error (.unreadable "Expecting ',' delimiter" other)
termination_by (text.length, 1)
decreasing_by all_goals grind

/-- The fields of an object up to its closing brace, added to those before. -/
def readFields (limit : Option Nat) (fields : List (String × Json)) (text : List Char) :
    Except JsonFault (JsonRead (List (String × Json)) text.length) :=
  match text with
  | '"' :: rest => do
    let key ← readString ('"' :: rest) rest
    match colon : skipGap key.rest with
    | ':' :: afterColon => do
      let value ← readValue limit (skipGap afterColon)
      let known := addField key.value value.value fields
      match gap : skipGap value.rest with
      | '\x7d' :: after => return ⟨known, after, by grind⟩
      | ',' :: after => do
        let others ← readFields limit known (skipGap after)
        return ⟨others.value, others.rest, by grind⟩
      | other => .error (.unreadable "Expecting ',' delimiter" other)
    | other => .error (.unreadable "Expecting ':' delimiter" other)
  | text => .error (.unreadable "Expecting property name enclosed in double quotes" text)
termination_by (text.length, 1)
decreasing_by all_goals grind

end

def ofChars (limit : Option Nat) (text : List Char) : Except JsonFault Json := do
  if text.head? = some '\ufeff' then
    throw (.unreadable "Unexpected UTF-8 BOM (decode using utf-8-sig)" text)
  let document ← readValue limit (skipGap text)
  match skipGap document.rest with
  | [] => return document.value
  | extra => throw (.unreadable "Extra data" extra)

/-- Where a fault lies in its text, for messages: line and column from one, characters from zero. -/
def placeText (text rest : List Char) : String :=
  let before := text.take (text.length - rest.length)
  let place := Position.start.advance before
  s!": line {place.line} column {place.column} (char {before.length})"

def ofText (text : String) : Except JsonFault Json := ofChars (some integerDigitLimit) text.toList

end Json
end ScriptKit
