/-!
Places in a source text, counted from one, and the stretches between two of them.
-/
namespace ScriptKit

structure Position where
  line : Nat
  column : Nat
deriving DecidableEq, Inhabited

namespace Position

def start : Position := ⟨1, 1⟩

/-- The place after one more character; only a line feed ends a line. -/
def next (position : Position) (char : Char) : Position :=
  if char = '\n' then ⟨position.line + 1, 1⟩ else ⟨position.line, position.column + 1⟩

def advance (position : Position) (text : List Char) : Position :=
  text.foldl next position

end Position

/-- Where a construct starts and where its last token starts. -/
structure Span where
  first : Position
  last : Position
deriving DecidableEq, Inhabited

def Span.point (position : Position) : Span := ⟨position, position⟩

end ScriptKit
