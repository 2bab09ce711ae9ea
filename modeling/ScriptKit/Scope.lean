import ScriptKit.Table
import ScriptKit.Value

/-!
Scopes and the heap that holds them. Scopes are made one after the other and never dropped, so a
scope's parent is older than the scope and a search along parents comes to an end.
-/
namespace ScriptKit

structure Scope where
  parent : Option ScopeId
  bindings : List (String × Value)

namespace Scope

def get? (scope : Scope) (name : String) : Option Value := scope.bindings.lookup name

def declare (scope : Scope) (name : String) (value : Value) : Scope :=
  { scope with bindings := Table.put name value scope.bindings }

def names (scope : Scope) : List String := scope.bindings.map Prod.fst

end Scope

/-- All scopes so far, and how many functions were made. -/
structure Heap where
  scopes : Array Scope
  functions : Nat

namespace Heap

def empty : Heap := ⟨#[], 0⟩

/-- A new scope without bindings. -/
def newScope (heap : Heap) (parent : Option ScopeId) : ScopeId × Heap :=
  (heap.scopes.size, { heap with scopes := heap.scopes.push ⟨parent, []⟩ })

def scope? (heap : Heap) (id : ScopeId) : Option Scope := heap.scopes[id]?

def declare (heap : Heap) (id : ScopeId) (name : String) (value : Value) : Heap :=
  { heap with scopes := heap.scopes.modify id fun scope => scope.declare name value }

/-- The innermost scope from `id` outward that binds a name, and the value it has there. -/
def find? (heap : Heap) (id : ScopeId) (name : String) : Option (ScopeId × Value) :=
  match heap.scope? id with
  | none => none
  | some scope =>
    match scope.get? name with
    | some value => some (id, value)
    | none =>
      match scope.parent with
      | some parent => if parent < id then heap.find? parent name else none
      | none => none
termination_by id

/-- The scopes from `id` outward. -/
def chain (heap : Heap) (id : ScopeId) : List Scope :=
  match heap.scope? id with
  | none => []
  | some scope =>
    match scope.parent with
    | some parent => scope :: if parent < id then heap.chain parent else []
    | none => [scope]
termination_by id

/-- A function that differs from all functions made before. -/
def newFunction (heap : Heap) (name : String) (parameters : List String) (body : Statement)
    (scope : ScopeId) : Closure × Heap :=
  (⟨heap.functions, name, parameters, body, scope⟩, { heap with functions := heap.functions + 1 })

end Heap
end ScriptKit
