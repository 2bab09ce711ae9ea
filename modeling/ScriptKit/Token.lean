import ScriptKit.Number
import ScriptKit.Position

/-!
Tokens of the script language: what a lexeme says, what kind it is of, and how messages name a kind.
-/
namespace ScriptKit

inductive Keyword where
  | letWord
  | ifWord
  | elseWord
  | whileWord
  | functionWord
  | returnWord
  | printWord
  | importWord
deriving DecidableEq, Repr

namespace Keyword

def text : Keyword → String
  | .letWord => "let"
  | .ifWord => "if"
  | .elseWord => "else"
  | .whileWord => "while"
  | .functionWord => "function"
  | .returnWord => "return"
  | .printWord => "print"
  | .importWord => "import"

def name : Keyword → String
  | .letWord => "LET"
  | .ifWord => "IF"
  | .elseWord => "ELSE"
  | .whileWord => "WHILE"
  | .functionWord => "FUNCTION"
  | .returnWord => "RETURN"
  | .printWord => "PRINT"
  | .importWord => "IMPORT"

def all : List Keyword :=
  [.letWord, .ifWord, .elseWord, .whileWord, .functionWord, .returnWord, .printWord, .importWord]

end Keyword

/-- Operators and punctuation. -/
inductive Symbol where
  | equals
  | notEquals
  | greaterEquals
  | lessEquals
  | and
  | or
  | assign
  | greater
  | less
  | plus
  | minus
  | multiply
  | divide
  | modulo
  | leftParen
  | rightParen
  | leftBrace
  | rightBrace
  | semicolon
  | comma
deriving DecidableEq, Repr

namespace Symbol

def text : Symbol → String
  | .equals => "=="
  | .notEquals => "!="
  | .greaterEquals => ">="
  | .lessEquals => "<="
  | .and => "&&"
  | .or => "||"
  | .assign => "="
  | .greater => ">"
  | .less => "<"
  | .plus => "+"
  | .minus => "-"
  | .multiply => "*"
  | .divide => "/"
  | .modulo => "%"
  | .leftParen => "("
  | .rightParen => ")"
  | .leftBrace => "\x7b"
  | .rightBrace => "\x7d"
  | .semicolon => ";"
  | .comma => ","

def name : Symbol → String
  | .equals => "EQUALS"
  | .notEquals => "NOT_EQUALS"
  | .greaterEquals => "GTE"
  | .lessEquals => "LTE"
  | .and => "AND"
  | .or => "OR"
  | .assign => "ASSIGN"
  | .greater => "GT"
  | .less => "LT"
  | .plus => "PLUS"
  | .minus => "MINUS"
  | .multiply => "MULTIPLY"
  | .divide => "DIVIDE"
  | .modulo => "MODULO"
  | .leftParen => "LPAREN"
  | .rightParen => "RPAREN"
  | .leftBrace => "LBRACE"
  | .rightBrace => "RBRACE"
  | .semicolon => "SEMICOLON"
  | .comma => "COMMA"

/-- The words for a symbol, without its sign. -/
def words : Symbol → String
  | .equals => "an equality sign"
  | .notEquals => "an inequality sign"
  | .and => "a logical and"
  | .or => "a logical or"
  | .assign => "an equals sign"
  | .plus => "a plus sign"
  | .minus => "a minus sign"
  | .multiply => "a multiplication sign"
  | .divide => "a division sign"
  | .modulo => "a modulo sign"
  | .leftParen => "an opening parenthesis"
  | .rightParen => "a closing parenthesis"
  | .leftBrace => "an opening brace"
  | .rightBrace => "a closing brace"
  | .semicolon => "a semicolon"
  | .comma => "a comma"
  | .greaterEquals | .lessEquals | .greater | .less => "a"

/-- Comparison signs are named by their sign alone. -/
def description (symbol : Symbol) : String :=
  let sign := "'" ++ symbol.text ++ "'"
  match symbol with
  | .greaterEquals | .lessEquals | .greater | .less => symbol.words ++ " " ++ sign ++ " sign"
  | _ => symbol.words ++ " " ++ sign

def all : List Symbol :=
  [.equals, .notEquals, .greaterEquals, .lessEquals, .and, .or, .assign, .greater, .less, .plus,
    .minus, .multiply, .divide, .modulo, .leftParen, .rightParen, .leftBrace, .rightBrace,
    .semicolon, .comma]

end Symbol

inductive TokenKind where
  | number
  | string
  | boolean (value : Bool)
  | identifier
  | keyword (word : Keyword)
  | symbol (sign : Symbol)
  | endOfFile
deriving DecidableEq, Repr

namespace TokenKind

def name : TokenKind → String
  | .number => "NUMBER"
  | .string => "STRING"
  | .boolean value => if value then "TRUE" else "FALSE"
  | .identifier => "IDENTIFIER"
  | .keyword word => word.name
  | .symbol sign => sign.name
  | .endOfFile => "EOF"

/-- How messages name a kind of token. -/
def description : TokenKind → String
  | .number => "a number"
  | .string => "a string in double quotes"
  | .boolean value => if value then "the 'true' keyword" else "the 'false' keyword"
  | .identifier => "a variable or function name"
  | .keyword word => "the '" ++ word.text ++ "' keyword"
  | .symbol sign => sign.description
  | .endOfFile => "the end of the file"

def all : List TokenKind :=
  [.number, .string, .boolean true, .boolean false, .identifier] ++ Keyword.all.map .keyword ++
    Symbol.all.map .symbol ++ [.endOfFile]

def ofName? (name : String) : Option TokenKind := all.find? fun kind => kind.name == name

/-- The description of the kind with a given name; an unknown name is put in quotes. -/
def describeName (name : String) : String :=
  match ofName? name with
  | some kind => kind.description
  | none => "'" ++ name ++ "'"

end TokenKind

/-- What a token says. -/
inductive Lexeme where
  | number (value : Number)
  | string (value : String)
  | boolean (value : Bool)
  | identifier (name : String)
  | keyword (word : Keyword)
  | symbol (sign : Symbol)
deriving DecidableEq

def Lexeme.kind : Lexeme → TokenKind
  | .number _ => .number
  | .string _ => .string
  | .boolean value => .boolean value
  | .identifier _ => .identifier
  | .keyword word => .keyword word
  | .symbol sign => .symbol sign

structure Token where
  lexeme : Lexeme
  position : Position
deriving DecidableEq

/-- The tokens of a text in order, and the place where the text ends. -/
structure TokenStream where
  tokens : List Token
  stop : Position
deriving DecidableEq

end ScriptKit
