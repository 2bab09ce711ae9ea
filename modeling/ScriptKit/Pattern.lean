import ScriptKit.Path
import ScriptKit.Json.Reader

/-!
Patterns for file names. A pattern has parts between slashes: two stars stand for any number of
directories, other parts with wildcards are matched against names, and the rest name entries.
-/
namespace ScriptKit

/-- Why a pattern cannot be used. -/
inductive PatternFault where
  | misplacedDoubleStar
  | empty
  | directoryOnly
deriving DecidableEq, Repr

namespace PatternFault

def message : PatternFault → String
  | .misplacedDoubleStar => "Invalid pattern: '**' can only be an entire path component"
  | .empty => "tuple index out of range"
  | .directoryOnly => "'_TerminatingSelector' object has no attribute 'select_from'"

end PatternFault

namespace Pattern

inductive Wildcard where
  | star
  | any
  | never
  | exactly (char : Char)
  | oneOf (negated : Bool) (singles : List Char) (ranges : List (Char × Char))
deriving DecidableEq

namespace Wildcard

/-- Whether one character fits; a star does not stand for one character. -/
def accepts (wildcard : Wildcard) (char : Char) : Bool :=
  match wildcard with
  | .star => false
  | .any => true
  | .never => false
  | .exactly wanted => char == wanted
  | .oneOf negated singles ranges =>
    let inside := singles.contains char ||
      ranges.any fun range => decide (range.1 ≤ char) && decide (char ≤ range.2)
    inside != negated

end Wildcard

def fits (pattern : List Wildcard) (name : List Char) : Bool :=
  match pattern, name with
  | [], [] => true
  | [], _ :: _ => false
  | .star :: rest, [] => fits rest []
  | .star :: rest, char :: others => fits rest (char :: others) || fits (.star :: rest) others
  | _ :: _, [] => false
  | wildcard :: rest, char :: others => wildcard.accepts char && fits rest others
termination_by pattern.length + name.length

/-- Cuts the inside of brackets at the hyphens of its ranges. A range takes one character on each
side, so after a hyphen the next one that makes a range comes at least three characters later. -/
def rangeChunks (inside : List Char) (skip : Nat) : List (List Char) :=
  match behind : (inside.drop skip).dropWhile (· != '-') with
  | [] => [inside]
  | _ :: rest => inside.take (inside.length - rest.length - 1) :: rangeChunks rest 2
termination_by inside.length
decreasing_by
  have := Json.length_dropWhile_le (· != '-') (inside.drop skip)
  simp only [behind, List.length_cons, List.length_drop] at this
  omega

/-- A hyphen at the end stands for itself. -/
def closeChunks : List (List Char) → List (List Char)
  | [] => []
  | [chunk] => [chunk]
  | [chunk, []] => [chunk ++ ['-']]
  | chunk :: rest => chunk :: closeChunks rest

/-- Drops ranges whose end comes before their start, from the last to the first. -/
def dropEmptyRanges : List (List Char) → List (List Char)
  | [] => []
  | chunk :: rest =>
    match dropEmptyRanges rest with
    | [] => [chunk]
    | next :: others =>
      match chunk.getLast?, next with
      | some low, high :: tail =>
        if high < low then (chunk.dropLast ++ tail) :: others else chunk :: next :: others
      | _, _ => chunk :: next :: others

/-- The ranges between neighbouring chunks. -/
def chunkRanges : List (List Char) → List (Char × Char)
  | first :: second :: rest =>
    match first.getLast?, second.head? with
    | some low, some high => (low, high) :: chunkRanges (second :: rest)
    | _, _ => chunkRanges (second :: rest)
  | _ => []

/-- The wildcard for the inside of brackets; an exclamation mark at its start negates. -/
def bracket (inside : List Char) : Wildcard :=
  let negated := inside.head? = some '!'
  let chunks :=
    if inside.contains '-' then
      dropEmptyRanges (closeChunks (rangeChunks inside (if negated then 2 else 1)))
    else [inside]
  let set := chunks.flatten
  if set.isEmpty then .never
  else if set = ['!'] then .any
  else .oneOf negated (if negated then set.drop 1 else set) (chunkRanges chunks)

/-- The inside of brackets and what follows the closing one, if there is one. A bracket right at the
start, or right after an exclamation mark, does not close. -/
def insideBrackets? (text : List Char) : Option (List Char × List Char) :=
  let mark := if text.head? = some '!' then 1 else 0
  let first := if (text.drop mark).head? = some ']' then mark + 1 else mark
  let more := ((text.drop first).takeWhile (· != ']')).length
  if first + more < text.length then
    some (text.take (first + more), text.drop (first + more + 1))
  else none

def wildcards (text : List Char) : List Wildcard :=
  match text with
  | [] => []
  | '*' :: rest => .star :: wildcards rest
  | '?' :: rest => .any :: wildcards rest
  | '[' :: rest =>
    match insideBrackets? rest with
    | none => .exactly '[' :: wildcards rest
    | some (inside, after) =>
      if after.length < rest.length then bracket inside :: wildcards after
      else .exactly '[' :: wildcards rest
  | char :: rest => .exactly char :: wildcards rest
termination_by text.length

inductive Part where
  | deep
  | wild (pattern : List Wildcard)
  | exact (name : String)
  | closing
deriving DecidableEq

def hasDoubleStar : List Char → Bool
  | '*' :: '*' :: _ => true
  | _ :: rest => hasDoubleStar rest
  | [] => false

def isWild (text : List Char) : Bool := text.any fun char => char == '*' || char == '?' || char == '['

def Part.ofText (text : List Char) : Except PatternFault Part :=
  if text = ['*', '*'] then .ok .deep
  else if hasDoubleStar text then .error .misplacedDoubleStar
  else if isWild text then .ok (.wild (wildcards text))
  else .ok (.exact (String.ofList text))

/-- The parts of a pattern; a slash at its end asks for a directory. -/
def parse (pattern : String) : Except PatternFault (List Part) := do
  let chars := pattern.toList
  let closing := chars.getLast? = some '/'
  match Path.names chars with
  | [] => throw (if closing then .directoryOnly else .empty)
  | names =>
    let parts ← names.mapM Part.ofText
    return if closing then parts ++ [.closing] else parts

end Pattern
end ScriptKit
