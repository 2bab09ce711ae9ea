import ScriptKit.Workspace

/-!
Source files: their text, and the program it spells.
-/
namespace ScriptKit.SourceFile

/-- The text of a source file. A missing file is a failure of its own; other trouble with reading is
an error about the source. -/
def read (workspace : Workspace) (path : String) : Except Failure String :=
  let unreadable (reason : String) : Failure :=
    .reported ⟨.reading, .sourceUnreadable path reason, none, none⟩
  match workspace.read path with
  | .error (.failed .notFound _) => .error (.missingSource path)
  | .error (.failed error _) => .error (unreadable error.reason)
  | .error .nullByte => .error .nullByte
  | .ok content =>
    match Text.ofFile content with
    | .ok text => .ok text
    | .error fault =>
      .error (unreadable s!"not valid UTF-8 ({fault.reason.message} at byte {fault.position})")

def load (workspace : Workspace) (path : String) : Except Failure Program := do
  let text ← read workspace path
  (Program.ofSource text (some path)).mapError Failure.ofSource

end ScriptKit.SourceFile
