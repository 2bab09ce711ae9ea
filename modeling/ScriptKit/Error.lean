import ScriptKit.Position

/-!
What can be wrong with a script, its imports or its project. A cause carries the details its message
names; the message itself is written here and nowhere else.
-/
namespace ScriptKit

inductive ErrorCode where
  | invalidCharacter
  | unterminatedString
  | lexingError
  | unexpectedToken
  | unexpectedStatement
  | undefinedVariable
  | notAFunction
  | operandTypeMismatch
  | divisionByZero
  | importNotSupported
  | sourceUnreadable
  | importFileNotFound
  | importFailed
  | importRequiresBuild
  | configNotFound
  | configInvalidJson
  | configInvalid
deriving DecidableEq, Repr

inductive Cause where
  | invalidCharacter (char : String)
  | unterminatedString
  | lexingError (details : String)
  | unexpectedToken (expected actual : String)
  | unexpectedStatement (actual : String)
  | undefinedVariable (name : String)
  | notAFunction (name : String)
  | operandTypeMismatch (operator leftType rightType : String)
  | divisionByZero (operator : String)
  | importNotSupported (path : String)
  | sourceUnreadable (path reason : String)
  | importFileNotFound (path : String)
  | importFailed (path reason : String)
  | importRequiresBuild (path : String)
  | configNotFound (path : String)
  | configInvalidJson (path reason : String)
  | configInvalid (path reason : String)
deriving DecidableEq

namespace Cause

def code : Cause → ErrorCode
  | .invalidCharacter _ => .invalidCharacter
  | .unterminatedString => .unterminatedString
  | .lexingError _ => .lexingError
  | .unexpectedToken .. => .unexpectedToken
  | .unexpectedStatement _ => .unexpectedStatement
  | .undefinedVariable _ => .undefinedVariable
  | .notAFunction _ => .notAFunction
  | .operandTypeMismatch .. => .operandTypeMismatch
  | .divisionByZero _ => .divisionByZero
  | .importNotSupported _ => .importNotSupported
  | .sourceUnreadable .. => .sourceUnreadable
  | .importFileNotFound _ => .importFileNotFound
  | .importFailed .. => .importFailed
  | .importRequiresBuild _ => .importRequiresBuild
  | .configNotFound _ => .configNotFound
  | .configInvalidJson .. => .configInvalidJson
  | .configInvalid .. => .configInvalid

/-- The message without the place it is about. -/
def message : Cause → String
  | .invalidCharacter char => "Syntax Error: Invalid character '" ++ char ++ "' found."
  | .unterminatedString => "Syntax Error: Unclosed string literal."
  | .lexingError details =>
    "Syntax Error: A general lexing error occurred. Details: " ++ details
  | .unexpectedToken expected actual =>
    "Syntax Error: Expected " ++ expected ++ ", but found " ++ actual ++ " instead."
  | .unexpectedStatement actual => "Syntax Error: " ++ actual ++ " cannot start a statement."
  | .undefinedVariable name => "Variable '" ++ name ++ "' is not defined."
  | .notAFunction name => "'" ++ name ++ "' is not a function."
  | .operandTypeMismatch operator leftType rightType =>
    "The '" ++ operator ++ "' operator cannot be used with a '" ++ leftType ++ "' and a '" ++
      rightType ++ "'."
  | .divisionByZero operator =>
    "The '" ++ operator ++ "' operator cannot be used with a zero divisor."
  | .importNotSupported path =>
    "import(\"" ++ path ++ "\") is only supported when compiling, not when running a script."
  | .sourceUnreadable path reason => "Could not read source file '" ++ path ++ "': " ++ reason
  | .importFileNotFound path => "Imported file not found: '" ++ path ++ "'"
  | .importFailed path reason => "Error compiling import '" ++ path ++ "': " ++ reason
  | .importRequiresBuild path =>
    "import(\"" ++ path ++ "\") can only be resolved while building files from disk."
  | .configNotFound path => "Config file not found: '" ++ path ++ "'"
  | .configInvalidJson path reason => "Error parsing '" ++ path ++ "': " ++ reason
  | .configInvalid path reason =>
    "Invalid project configuration in '" ++ path ++ "': " ++ reason

end Cause

namespace ErrorCode

/-- The cause with the given details, looked up by name in the order the message uses them. The
first name without a detail is the failure. -/
def cause (code : ErrorCode) (details : String → Option String) : Except String Cause :=
  let detail (name : String) : Except String String :=
    match details name with
    | some text => .ok text
    | none => .error name
  match code with
  | .invalidCharacter => .invalidCharacter <$> detail "char"
  | .unterminatedString => .ok .unterminatedString
  | .lexingError => .lexingError <$> detail "details"
  | .unexpectedToken => .unexpectedToken <$> detail "expected" <*> detail "actual"
  | .unexpectedStatement => .unexpectedStatement <$> detail "actual"
  | .undefinedVariable => .undefinedVariable <$> detail "name"
  | .notAFunction => .notAFunction <$> detail "name"
  | .operandTypeMismatch =>
    .operandTypeMismatch <$> detail "op" <*> detail "left_type" <*> detail "right_type"
  | .divisionByZero => .divisionByZero <$> detail "op"
  | .importNotSupported => .importNotSupported <$> detail "path"
  | .sourceUnreadable => .sourceUnreadable <$> detail "path" <*> detail "reason"
  | .importFileNotFound => .importFileNotFound <$> detail "path"
  | .importFailed => .importFailed <$> detail "path" <*> detail "reason"
  | .importRequiresBuild => .importRequiresBuild <$> detail "path"
  | .configNotFound => .configNotFound <$> detail "path"
  | .configInvalidJson => .configInvalidJson <$> detail "path" <*> detail "reason"
  | .configInvalid => .configInvalid <$> detail "path" <*> detail "reason"

/-- The message with the name of each detail, in braces, in its place. -/
def template (code : ErrorCode) : String :=
  match code.cause fun name => some ("\x7b" ++ name ++ "\x7d") with
  | .ok cause => cause.message
  | .error name => name

end ErrorCode

/-- The activity that met the error. -/
inductive Phase where
  | unspecified
  | lexing
  | parsing
  | running
  | reading
  | importing
  | configuring
deriving DecidableEq, Repr

structure Error where
  phase : Phase
  cause : Cause
  span : Option Span
  file : Option String
deriving DecidableEq

namespace Error

/-- What stands before the message; a file with an empty name counts as none. -/
def location (error : Error) : String :=
  let file := error.file.filter fun name => !name.isEmpty
  match error.span, file with
  | some span, some name =>
    s!"Error in '{name}' (Line: {span.first.line}, Column: {span.first.column}):\n"
  | some span, none => s!"Error at Line: {span.first.line}, Column: {span.first.column}:\n"
  | none, some name => s!"Error in '{name}': "
  | none, none => ""

def message (error : Error) : String := error.location ++ error.cause.message

def inFile (error : Error) (file : String) : Error := { error with file := some file }

end Error
end ScriptKit
