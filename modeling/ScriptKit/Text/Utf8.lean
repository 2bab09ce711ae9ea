/-!
Bytes as text in UTF-8. A text that is not valid has a first fault: where its sequence starts, how
many bytes it spoils, and why.
-/
namespace ScriptKit.Text

inductive Utf8Reason where
  | invalidStart
  | invalidContinuation
  | unexpectedEnd
deriving DecidableEq, Repr

def Utf8Reason.message : Utf8Reason → String
  | .invalidStart => "invalid start byte"
  | .invalidContinuation => "invalid continuation byte"
  | .unexpectedEnd => "unexpected end of data"

structure Utf8Fault where
  reason : Utf8Reason
  position : Nat
  length : Nat
  byte : Nat
deriving DecidableEq

/-- The ranges of the bytes that have to follow a first byte; none if nothing can start with it. -/
def continuations? (lead : Nat) : Option (List (Nat × Nat)) :=
  let any := (0x80, 0xbf)
  if lead < 0x80 then some []
  else if lead < 0xc2 then none
  else if lead < 0xe0 then some [any]
  else if lead = 0xe0 then some [(0xa0, 0xbf), any]
  else if lead = 0xed then some [(0x80, 0x9f), any]
  else if lead < 0xf0 then some [any, any]
  else if lead = 0xf0 then some [(0x90, 0xbf), any, any]
  else if lead < 0xf4 then some [any, any, any]
  else if lead = 0xf4 then some [(0x80, 0x8f), any, any]
  else none

/-- How many bytes fit the ranges, and why not all of them if so. -/
def matchContinuations : List (Nat × Nat) → List Nat → Nat × Option Utf8Reason
  | [], _ => (0, none)
  | _ :: _, [] => (0, some .unexpectedEnd)
  | (low, high) :: ranges, byte :: bytes =>
    if low ≤ byte ∧ byte ≤ high then
      let (count, reason) := matchContinuations ranges bytes
      (count + 1, reason)
    else (0, some .invalidContinuation)

/-- What a first byte starts: how many of the bytes after it belong to it, and the reason if it is no
character. -/
def sequenceAt (lead : Nat) (rest : List Nat) : Nat × Option Utf8Reason :=
  match continuations? lead with
  | none => (0, some .invalidStart)
  | some ranges => matchContinuations ranges rest

def firstFault? (position : Nat) (bytes : List Nat) : Option Utf8Fault :=
  match bytes with
  | [] => none
  | lead :: rest =>
    match sequenceAt lead rest with
    | (extra, some reason) => some ⟨reason, position, extra + 1, lead⟩
    | (extra, none) => firstFault? (position + extra + 1) (rest.drop extra)
termination_by bytes.length

/-- The code point of a complete sequence. -/
def codePoint (lead : Nat) (rest : List Nat) : Nat :=
  let bits :=
    if lead < 0x80 then lead else if lead < 0xe0 then lead - 0xc0
    else if lead < 0xf0 then lead - 0xe0 else lead - 0xf0
  rest.foldl (fun code byte => code * 64 + (byte - 0x80)) bits

/-- The text with each fault replaced by one replacement character. -/
def decodeReplacing (bytes : List Nat) : List Char :=
  match bytes with
  | [] => []
  | lead :: rest =>
    match sequenceAt lead rest with
    | (extra, some _) => '\ufffd' :: decodeReplacing (rest.drop extra)
    | (extra, none) =>
      Char.ofNat (codePoint lead (rest.take extra)) :: decodeReplacing (rest.drop extra)
termination_by bytes.length

def byteValues (bytes : ByteArray) : List Nat := bytes.toList.map UInt8.toNat

/-- The text of bytes, or their first fault. -/
def decode (bytes : ByteArray) : Except Utf8Fault String :=
  match String.fromUTF8? bytes with
  | some text => .ok text
  | none => .error ((firstFault? 0 (byteValues bytes)).getD ⟨.unexpectedEnd, 0, 0, 0⟩)

/-- The ways to end a line, all made line feeds. -/
def unifyLines : List Char → List Char
  | [] => []
  | '\r' :: '\n' :: rest => '\n' :: unifyLines rest
  | '\r' :: rest => '\n' :: unifyLines rest
  | char :: rest => char :: unifyLines rest

/-- The text of a file: decoded, with line feeds only. -/
def ofFile (bytes : ByteArray) : Except Utf8Fault String := do
  let text ← decode bytes
  return String.ofList (unifyLines text.toList)

end ScriptKit.Text
