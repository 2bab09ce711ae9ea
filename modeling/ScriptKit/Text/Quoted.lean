import ScriptKit.Text.Printable

/-!
Texts between quotes. `jsonQuoted` writes a JSON string, either as it stands or in ASCII only;
`shown` writes a text the way a message shows a name or a path.
-/
namespace ScriptKit.Text

/-- Digits of a number in lower-case hexadecimal, padded with zeros to a width. -/
def hexDigits (width value : Nat) : List Char :=
  let digits := Nat.toDigits 16 value
  List.replicate (width - digits.length) '0' ++ digits

/-- The escape that stands for one unit of sixteen bits. -/
def unitEscape (unit : Nat) : List Char := '\\' :: 'u' :: hexDigits 4 unit

/-- Code points above the first plane are two surrogates. -/
def codeEscape (code : Nat) : List Char :=
  if code < 0x10000 then unitEscape code
  else
    let offset := code - 0x10000
    unitEscape (0xd800 + offset / 0x400) ++ unitEscape (0xdc00 + offset % 0x400)

/-- A character inside a JSON string. With `ascii`, all beyond printable ASCII is escaped. -/
def jsonChar (ascii : Bool) (char : Char) : List Char :=
  if char = '"' then ['\\', '"']
  else if char = '\\' then ['\\', '\\']
  else if char = '\n' then ['\\', 'n']
  else if char = '\r' then ['\\', 'r']
  else if char = '\t' then ['\\', 't']
  else if char = '\x08' then ['\\', 'b']
  else if char = '\x0c' then ['\\', 'f']
  else if char.toNat < 0x20 then unitEscape char.toNat
  else if ascii && 0x7e < char.toNat then codeEscape char.toNat
  else [char]

def jsonQuoted (ascii : Bool) (text : String) : String :=
  String.ofList ('"' :: text.toList.flatMap (jsonChar ascii) ++ ['"'])

def shownChar (quote char : Char) : List Char :=
  let code := char.toNat
  if char = quote ∨ char = '\\' then ['\\', char]
  else if char = '\t' then ['\\', 't']
  else if char = '\n' then ['\\', 'n']
  else if char = '\r' then ['\\', 'r']
  else if isPrintable char then [char]
  else if code < 0x100 then '\\' :: 'x' :: hexDigits 2 code
  else if code < 0x10000 then '\\' :: 'u' :: hexDigits 4 code
  else '\\' :: 'U' :: hexDigits 8 code

/-- A text in single quotes, or in double ones when that saves escaping. -/
def shown (text : String) : String :=
  let chars := text.toList
  let quote := if chars.contains '\x27' && !chars.contains '"' then '"' else '\x27'
  String.ofList (quote :: chars.flatMap (shownChar quote) ++ [quote])

end ScriptKit.Text
