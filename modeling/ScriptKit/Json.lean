import ScriptKit.Number.Decimal
import ScriptKit.Table
import ScriptKit.Text.Points

/-!
JSON documents and their texts. Integers and doubles are told apart, so are strings that are texts and
strings with half of a surrogate pair in them, and the fields of an object keep their order.
-/
namespace ScriptKit

inductive Json where
  | null
  | boolean (value : Bool)
  | integer (value : Int)
  | double (value : Double)
  | string (value : String)
  | loose (value : List Point)
  | array (items : List Json)
  | object (fields : List (String × Json))
deriving Inhabited

namespace Json

/-- Numbers that are not finite are spelled out. -/
def doubleText (value : Double) : String := value.toText ⟨"NaN", "Infinity"⟩

def scalarText : Json → String
  | .null => "null"
  | .boolean value => if value then "true" else "false"
  | .integer value => toString value
  | .double value => doubleText value
  | .string value => Text.jsonQuoted true value
  | .loose value => String.ofList ('"' :: value.flatMap Point.escaped ++ ['"'])
  | .array _ => "[]"
  | .object _ => "\x7b\x7d"

/-- A line break and the indentation of a depth. -/
def lineBreak (depth : Nat) : String :=
  "\n" ++ String.ofList (List.replicate (2 * depth) ' ')

mutual

/-- The text in ASCII, one item a line, each level two spaces further in. -/
def indented (depth : Nat) : Json → String
  | .array (item :: items) =>
    "[" ++ lineBreak (depth + 1) ++ indented (depth + 1) item ++ indentedItems (depth + 1) items ++
      lineBreak depth ++ "]"
  | .object ((key, value) :: fields) =>
    "\x7b" ++ lineBreak (depth + 1) ++ Text.jsonQuoted true key ++ ": " ++
      indented (depth + 1) value ++ indentedFields (depth + 1) fields ++ lineBreak depth ++ "\x7d"
  | other => scalarText other

def indentedItems (depth : Nat) : List Json → String
  | [] => ""
  | item :: items => "," ++ lineBreak depth ++ indented depth item ++ indentedItems depth items

def indentedFields (depth : Nat) : List (String × Json) → String
  | [] => ""
  | (key, value) :: fields =>
    "," ++ lineBreak depth ++ Text.jsonQuoted true key ++ ": " ++ indented depth value ++
      indentedFields depth fields

end

mutual

/-- The text in ASCII on one line. -/
def compact : Json → String
  | .array (item :: items) => "[" ++ compact item ++ compactItems items ++ "]"
  | .object ((key, value) :: fields) =>
    "\x7b" ++ Text.jsonQuoted true key ++ ":" ++ compact value ++ compactFields fields ++ "\x7d"
  | other => scalarText other

def compactItems : List Json → String
  | [] => ""
  | item :: items => "," ++ compact item ++ compactItems items

def compactFields : List (String × Json) → String
  | [] => ""
  | (key, value) :: fields =>
    "," ++ Text.jsonQuoted true key ++ ":" ++ compact value ++ compactFields fields

end

/-- The string with these points. -/
def ofPoints (points : List Point) : Json :=
  match Text.ofPoints points with
  | .ok text => .string text
  | .error _ => .loose points

/-- Adds a field to others, unless its key is no text. -/
def addField (key : List Point) (value : Json) (fields : List (String × Json)) :
    List (String × Json) :=
  match Text.ofPoints key with
  | .ok name => Table.put name value fields
  | .error _ => fields

def field? (key : String) : Json → Option Json
  | .object fields => fields.lookup key
  | _ => none

end Json
end ScriptKit
