import ScriptKit.Json.Reader
import ScriptKit.Text.Quoted

/-!
Hosts of URIs. A host in brackets has to be an address with colons or one of a later version, and no
host may hold a character that is read as one of the marks a URI is cut at.
-/
namespace ScriptKit.Uri

/-- Why a host is refused. -/
inductive HostFault where
  | unmatchedBracket
  | malformedFutureAddress
  | notAnAddress (text : String)
  | bracketedDottedAddress
  | disguisedMark (host : String)
deriving DecidableEq, Repr

namespace HostFault

def message : HostFault → String
  | .unmatchedBracket => "Invalid IPv6 URL"
  | .malformedFutureAddress => "IPvFuture address is invalid"
  | .notAnAddress text => s!"{Text.shown text} does not appear to be an IPv4 or IPv6 address"
  | .bracketedDottedAddress => "An IPv4 address cannot be in brackets"
  | .disguisedMark host =>
    s!"netloc '{host}' contains invalid characters under NFKC normalization"

end HostFault

/-- The parts of a text between separators; there is always at least one. -/
def cut (separator : Char) : List Char → List (List Char)
  | [] => [[]]
  | char :: rest =>
    match cut separator rest with
    | [] => [[char]]
    | first :: others =>
      if char = separator then [] :: first :: others else (char :: first) :: others

/-- One to three digits of a number below 256, without a leading zero. -/
def isOctet (text : List Char) : Bool :=
  !text.isEmpty && text.all Char.isDigit && text.length ≤ 3 &&
    (text.length = 1 || text.head? != some '0') &&
    text.foldl (fun value digit => 10 * value + (digit.toNat - '0'.toNat)) 0 ≤ 255

def isDottedAddress (text : List Char) : Bool :=
  let octets := cut '.' text
  octets.length = 4 && octets.all isOctet

/-- One to four hexadecimal digits. -/
def isGroup (text : List Char) : Bool :=
  !text.isEmpty && text.length ≤ 4 && text.all fun char => (Json.hexValue? char).isSome

/-- Groups in which one gap may stand for groups of zeros; at an end the gap is two empty parts. -/
def areGroups (parts : List (List Char)) : Bool :=
  let inner := (parts.drop 1).dropLast
  let high := parts.takeWhile (!·.isEmpty)
  let low := (parts.reverse.takeWhile (!·.isEmpty)).reverse
  match inner.countP List.isEmpty with
  | 0 => parts.length = 8 && parts.all isGroup
  | 1 =>
    let atStart := parts.head? = some []
    let atEnd := parts.getLast? = some []
    let gap := 1 + (if atStart then 1 else 0) + (if atEnd then 1 else 0)
    high.length + low.length + gap = parts.length && high.length + low.length ≤ 7 &&
      high.all isGroup && low.all isGroup
  | _ => false

/-- Replaces a dotted address at the end by the two groups it stands for. -/
def expandDotted (parts : List (List Char)) : Option (List (List Char)) :=
  match parts.getLast? with
  | none => some parts
  | some last =>
    if last.contains '.' then
      if isDottedAddress last then some (parts.dropLast ++ [['0'], ['0']]) else none
    else some parts

/-- A zone after a percent sign is not empty and has no such sign itself. -/
def hasGoodZone (text : List Char) : Bool :=
  match text.dropWhile (· != '%') with
  | [] => true
  | _ :: zone => !zone.isEmpty && !zone.contains '%'

/-- An address of groups between colons, at least two colons. -/
def isColonAddress (text : List Char) : Bool :=
  let parts := cut ':' (text.takeWhile (· != '%'))
  hasGoodZone text && 3 ≤ parts.length &&
    match expandDotted parts with
    | none => false
    | some groups => groups.length ≤ 9 && areGroups groups

/-- The letter, hexadecimal digits, a point and at least one more character. -/
def isFutureAddress (text : List Char) : Bool :=
  let rest := text.drop 1
  let isHex (char : Char) : Bool := (Json.hexValue? char).isSome
  match rest.takeWhile isHex, rest.dropWhile isHex with
  | _ :: _, '.' :: _ :: _ => text.head? = some 'v'
  | _, _ => false

def checkAddress (text : List Char) : Except HostFault Unit :=
  if text.head? = some 'v' then
    if isFutureAddress text then .ok () else .error .malformedFutureAddress
  else if isDottedAddress text then .error .bracketedDottedAddress
  else if isColonAddress text then .ok ()
  else .error (.notAnAddress (String.ofList text))

/-- The code points of characters that stand for a slash, question mark, number sign, at sign or
colon, alone or among others. -/
def disguisedMarks : List Nat :=
  [0x2047, 0x2048, 0x2049, 0x2100, 0x2101, 0x2105, 0x2106, 0x2a74, 0xfe13, 0xfe16, 0xfe55, 0xfe56,
    0xfe5f, 0xfe6b, 0xff03, 0xff0f, 0xff1a, 0xff1f, 0xff20]

/-- Brackets come in pairs, and the first opening one encloses an address. -/
def checkBrackets (host : List Char) : Except HostFault Unit :=
  if host.contains '[' != host.contains ']' then .error .unmatchedBracket
  else if host.contains '[' then
    checkAddress (((host.dropWhile (· != '[')).drop 1).takeWhile (· != ']'))
  else .ok ()

def checkHost (host : List Char) : Except HostFault Unit := do
  checkBrackets host
  if host.any fun char => disguisedMarks.contains char.toNat then
    throw (.disguisedMark (String.ofList host))

end ScriptKit.Uri
