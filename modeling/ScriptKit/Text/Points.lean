import ScriptKit.Text.Quoted

/-!
Texts in which half of a surrogate pair may stand alone, as escapes can spell them. Such a text has no
encoding, but a path may have one: there the halves from U+DC80 to U+DCFF stand for single bytes.
-/
namespace ScriptKit

/-- A character, or half of a surrogate pair. -/
inductive Point where
  | char (value : Char)
  | half (offset : Fin 0x800)
deriving DecidableEq, Repr

namespace Point

/-- The point that one unit of sixteen bits stands for by itself. -/
def ofUnit (unit : Nat) : Point :=
  if 0xd800 ≤ unit ∧ unit < 0xe000 then .half (Fin.ofNat 0x800 (unit - 0xd800))
  else .char (Char.ofNat unit)

def code : Point → Nat
  | .char value => value.toNat
  | .half offset => 0xd800 + offset

def isHalf : Point → Bool
  | .char _ => false
  | .half _ => true

def isByte (point : Point) : Bool := 0xdc80 ≤ point.code && point.code ≤ 0xdcff

def char? : Point → Option Char
  | .char value => some value
  | .half _ => none

/-- A point inside a JSON string in ASCII. -/
def escaped : Point → List Char
  | .char value => Text.jsonChar true value
  | point => Text.unitEscape point.code

end Point

/-- Why a text has no encoding: so many halves stand in a row from a position on, the first of which
has none. -/
structure EncodingFault where
  position : Nat
  length : Nat
  code : Nat
deriving DecidableEq, Repr

def EncodingFault.message (fault : EncodingFault) : String :=
  if fault.length = 1 then
    let code := String.ofList (Text.unitEscape fault.code)
    s!"'utf-8' codec can't encode character '{code}' in position {fault.position}: " ++
      "surrogates not allowed"
  else
    s!"'utf-8' codec can't encode characters in position {fault.position}-" ++
      s!"{fault.position + fault.length - 1}: surrogates not allowed"

namespace Text

/-- What is wrong with points of which some have no encoding. -/
def encodingFault? (encodes : Point → Bool) (points : List Point) : Option EncodingFault :=
  match points.dropWhile encodes with
  | [] => none
  | first :: rest =>
    some ⟨(points.takeWhile encodes).length, (rest.takeWhile Point.isHalf).length + 1, first.code⟩

def toPoints (text : String) : List Point := text.toList.map .char

/-- The text that has these points, if it is one. -/
def ofPoints (points : List Point) : Except EncodingFault String :=
  match encodingFault? (!·.isHalf) points with
  | some fault => .error fault
  | none => .ok (String.ofList (points.filterMap Point.char?))

end Text
end ScriptKit
