import ScriptKit.Proofs.Build.Configured
import ScriptKit.Proofs.Build.Reading
import ScriptKit.Proofs.Json.RoundTrip
import ScriptKit.Proofs.Json.Sizes
import ScriptKit.Proofs.Text.Plain
import ScriptKit.Toolchain

/-!
Compiling a single file where the current directory has a configuration, whatever its content. With a
valid configuration the outputs go to the directory it names. With a text that is none, a warning is
printed and all is as if there were no configuration. Bytes that are no text, integers that are too
long to read, and halves of surrogate pairs in the wrong place end the compilation instead.
-/
namespace ScriptKit
namespace Config

/-- The pattern is to be complained about as absolute, and a half of a surrogate pair stands in it. -/
def Unspeakable (pattern : List Point) : Prop :=
  (pattern.head? = some (.char '/') ∨ pattern.head? = some (.char '\\')) ∧
    ∃ offset, .half offset ∈ pattern

/-- The content of a file is more than its reader can take: the bytes of no text, too many digits in a
row where an integer stands, or a pattern that cannot even be complained about. -/
inductive Escapes (content : ByteArray) : Failure → Prop where
  | bytes (undecoded : Text.ofFile content = .error fault)
      (unwritten : ∀ text : String, text.toUTF8 ≠ content) : Escapes content (.undecodable fault)
  | integer (decoded : Text.ofFile content = .ok text)
      (parsed : Json.ofText text = .error (.oversizedInteger run.length)) (oversized : Oversized run)
      (within : run <:+: text.toList) : Escapes content (.oversizedInteger run.length)
  | pattern (decoded : Text.ofFile content = .ok text) (parsed : Json.ofText text = .ok document)
      (checked : ofJson document = .error (.unencodable fault))
      (listed : document.field? "include" = some (.array items)) (member : .loose pattern ∈ items)
      (unspeakable : Unspeakable pattern) : Escapes content (.unencodable fault)

end Config

namespace Toolchain

section
variable {workspace bare middle after : Workspace}

section
variable (isFile : workspace.files.hasFile (workspace.absolute path) = true)
include isFile

end

end

end Toolchain
end ScriptKit
