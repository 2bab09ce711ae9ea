import ScriptKit.Json.Reader
import ScriptKit.Path
import ScriptKit.Text.Utf8
import ScriptKit.Uri.Host

/-!
The file path a URI stands for: its path part with escapes resolved, in normal form.
-/
namespace ScriptKit.Uri

/-- Control characters and spaces before a URI are skipped, line breaks and tabs dropped. -/
def clean (uri : List Char) : List Char :=
  (uri.dropWhile fun char => char.toNat ≤ 0x20).filter fun char =>
    char != '\t' && char != '\r' && char != '\n'

def isSchemeChar (char : Char) : Bool :=
  char.isAlphanum || char == '+' || char == '-' || char == '.'

/-- The scheme in lower case, empty if there is none, and what follows it. -/
def splitScheme (uri : List Char) : List Char × List Char :=
  let scheme := uri.takeWhile (· != ':')
  if scheme.length < uri.length ∧ (scheme.head?.map Char.isAlpha) = some true ∧
      scheme.all isSchemeChar then
    (scheme.map Char.toLower, uri.drop (scheme.length + 1))
  else ([], uri)

/-- The host, empty if there is none, and what follows it. -/
def splitHost : List Char → List Char × List Char
  | '/' :: '/' :: rest =>
    let isHostChar (char : Char) : Bool := char != '/' && char != '?' && char != '#'
    (rest.takeWhile isHostChar, rest.dropWhile isHostChar)
  | text => ([], text)

/-- The schemes whose last path part may have parameters after a semicolon. -/
def schemesWithParameters : List String :=
  ["", "ftp", "hdl", "prospero", "http", "imap", "https", "shttp", "rtsp", "rtspu", "sip",
    "sips", "mms", "sftp", "tel"]

def dropParameters (path : List Char) : List Char :=
  Path.headChars path ++ (Path.baseChars path).takeWhile (· != ';')

/-- The bytes of an ASCII text in which a percent sign and two hexadecimal digits stand for a byte. -/
def unescapeBytes : List Char → List Nat
  | [] => []
  | '%' :: high :: low :: rest =>
    match Json.hexValue? high, Json.hexValue? low with
    | some first, some second => (first * 16 + second) :: unescapeBytes rest
    | _, _ => '%'.toNat :: unescapeBytes (high :: low :: rest)
  | char :: rest => char.toNat :: unescapeBytes rest

def isAscii (char : Char) : Bool := char.toNat < 0x80

/-- Resolves the escapes in each run of ASCII characters; other characters stay. -/
def unescape (text : List Char) : List Char :=
  match text with
  | [] => []
  | char :: rest =>
    if isAscii char then
      have := Json.length_dropWhile_le isAscii rest
      Text.decodeReplacing (unescapeBytes (char :: rest.takeWhile isAscii)) ++
        unescape (rest.dropWhile isAscii)
    else char :: unescape rest
termination_by text.length
decreasing_by all_goals grind

/-- The path of a URI seen from a directory, unless its host is refused. -/
def toPath (directory uri : String) : Except HostFault String := do
  let (scheme, afterScheme) := splitScheme (clean uri.toList)
  let (host, afterHost) := splitHost afterScheme
  checkHost host
  let path := (afterHost.takeWhile (· != '#')).takeWhile (· != '?')
  let plain :=
    if schemesWithParameters.contains (String.ofList scheme) then dropParameters path else path
  return Path.absolute directory (String.ofList (unescape plain))

end ScriptKit.Uri
