import ScriptKit.Evaluation
import ScriptKit.FileTree
import ScriptKit.Pattern
import ScriptKit.Program.Parser
import ScriptKit.Text.Points
import ScriptKit.Text.Utf8

/-!
Why an action of the toolchain has no result: an error to report about a script or a project, or
trouble with files, texts and patterns that no script is to blame for. Files have texts for names here,
so what is done with other names ends with a failure of its own, `unnameable`.
-/
namespace ScriptKit

/-- Why an action has no result. -/
inductive Failure where
  | reported (error : Error)
  | oversizedInteger (digits : Nat)
  | stopped (fault : RunFault)
  | missingSource (path : String)
  | missingInput (path : String)
  | file (error : FileError) (path : String)
  | nullByte
  | undecodable (fault : Text.Utf8Fault)
  | unencodable (fault : EncodingFault)
  | unnameable (name : List Point)
  | pattern (fault : PatternFault)
  | nestedTooDeep
deriving DecidableEq

namespace Failure

def ofSource : SourceFault → Failure
  | .reported error => .reported error
  | .oversizedInteger digits => .oversizedInteger digits

def ofRun : RunFault → Failure
  | .reported error => .reported error
  | fault => .stopped fault

def ofFile : FileFault → Failure
  | .failed error path => .file error path
  | .nullByte => .nullByte

/-- Whether a file that was asked for is not there. -/
def isMissingFile : Failure → Bool
  | .missingSource _ => true
  | .missingInput _ => true
  | .file .notFound _ => true
  | _ => false

def decodingMessage (fault : Text.Utf8Fault) : String :=
  if fault.length = 1 then
    let byte := String.ofList (Text.hexDigits 2 fault.byte)
    s!"'utf-8' codec can't decode byte 0x{byte} in position {fault.position}: {fault.reason.message}"
  else
    s!"'utf-8' codec can't decode bytes in position {fault.position}-" ++
      s!"{fault.position + fault.length - 1}: {fault.reason.message}"

def message : Failure → String
  | .reported error => error.message
  | .oversizedInteger digits =>
    s!"Exceeds the limit ({integerDigitLimit} digits) for integer string conversion: value has " ++
      s!"{digits} digits; use sys.set_int_max_str_digits() to increase the limit"
  | .stopped fault => fault.message
  | .missingSource path => "Compiler could not find file at: " ++ path
  | .missingInput path => "File not found: " ++ path
  | .file error path => error.message path
  | .nullByte => "embedded null byte"
  | .undecodable fault => decodingMessage fault
  | .unencodable fault => fault.message
  | .unnameable name => String.ofList (name.flatMap Point.escaped) ++ " is no text"
  | .pattern fault => fault.message
  | .nestedTooDeep => "imports nested too deep"

end Failure

end ScriptKit
