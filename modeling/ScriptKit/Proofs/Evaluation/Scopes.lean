import ScriptKit.Evaluation
import ScriptKit.Proofs.Program.Parts
import ScriptKit.Proofs.Table

/-!
The scopes of a heap form a tree with the global scope as its root. What running does to them is to
make new ones and to bind names: no scope goes away or moves, and none loses a name.
-/
namespace ScriptKit

/-- What running is held to: the nodes that may be evaluated, with those inside them, and the names
that may be bound, among them all that such nodes declare. -/
structure Law where
  Part : Node → Prop
  Declares : String → Prop
  inner : Part node → part ∈ node.children → Part part
  declares : Part node → node.symbols.Has name → Declares name

/-- Every node may be evaluated, and every name bound. -/
def Law.free : Law := ⟨fun _ => True, fun _ => True, fun _ _ => trivial, fun _ _ => trivial⟩

/-- The parts of the program may be evaluated, and the names bound that it declares. -/
def Program.law (program : Program) : Law := ⟨program.Part, program.Declares, .inner, Part.declares⟩

namespace Heap

section
variable {id owner parent : ScopeId}

theorem scope?_lt {heap : Heap} (found : heap.scope? id = some scope) : id < heap.scopes.size :=
  (Array.getElem?_eq_some_iff.mp found).1

private theorem exists_scope {heap : Heap} (live : id < heap.scopes.size) :
    ∃ scope, heap.scope? id = some scope :=
  ⟨heap.scopes[id], Array.getElem?_eq_getElem live⟩

private theorem scope?_newScope (heap : Heap) (parent : Option ScopeId) (id : ScopeId) :
    (heap.newScope parent).2.scope? id =
      if id = heap.scopes.size then some ⟨parent, []⟩ else heap.scope? id :=
  Array.getElem?_push

private theorem scope?_declare (heap : Heap) (owner : ScopeId) (name : String) (value : Value)
    (id : ScopeId) :
    (heap.declare owner name value).scope? id =
      if owner = id then (heap.scope? id).map (·.declare name value) else heap.scope? id :=
  Array.getElem?_modify

/-- Every scope is still there, in the same place of the tree and with the same names; only a gaining
one may have more. -/
def Extends (gaining : ScopeId → Prop) (before after : Heap) : Prop :=
  ∀ id scope, before.scope? id = some scope → ∃ scope', after.scope? id = some scope' ∧
    scope'.parent = scope.parent ∧ scope.names <+: scope'.names ∧
    (¬ gaining id → scope'.names = scope.names)

namespace Extends

variable {gaining : ScopeId → Prop} {before middle after : Heap}

theorem refl (heap : Heap) : Extends gaining heap heap :=
  fun _ scope found => ⟨scope, found, rfl, List.prefix_rfl, fun _ => rfl⟩

theorem trans (first : Extends gaining before middle) (second : Extends gaining middle after) :
    Extends gaining before after := by
  intro id scope found
  obtain ⟨scope', found', parent, more, same⟩ := first id scope found
  obtain ⟨scope'', found'', parent', more', same'⟩ := second id scope' found'
  exact ⟨scope'', found'', parent'.trans parent, more.trans more',
    fun still => (same' still).trans (same still)⟩

/-- Only the scopes that were there before have to be accounted for. -/
theorem weaken {wider : ScopeId → Prop} (extends' : Extends gaining before after)
    (includes : ∀ id, id < before.scopes.size → gaining id → wider id) :
    Extends wider before after := by
  intro id scope found
  obtain ⟨scope', found', parent, more, same⟩ := extends' id scope found
  exact ⟨scope', found', parent, more, fun still => same fun gains =>
    still (includes id (scope?_lt found) gains)⟩

theorem size_le (extends' : Extends gaining before after) :
    before.scopes.size ≤ after.scopes.size := by
  cases size : before.scopes.size with
  | zero => exact Nat.zero_le _
  | succ last =>
    have live : last < before.scopes.size := by omega
    obtain ⟨scope, found⟩ := exists_scope live
    obtain ⟨_, found', _⟩ := extends' last scope found
    exact scope?_lt found'

theorem newScope (heap : Heap) (parent : Option ScopeId) :
    Extends gaining heap (heap.newScope parent).2 := by
  intro id scope found
  have earlier : id ≠ heap.scopes.size := Nat.ne_of_lt (scope?_lt found)
  refine ⟨scope, ?_, rfl, List.prefix_rfl, fun _ => rfl⟩
  rw [scope?_newScope, if_neg earlier, found]

/-- A name may be new to a gaining scope only. -/
theorem declare (heap : Heap) (value : Value)
    (known : ¬ gaining owner → ∀ scope, heap.scope? owner = some scope → name ∈ scope.names) :
    Extends gaining heap (heap.declare owner name value) := by
  intro id scope found
  rw [scope?_declare, found]
  split
  · rename_i same
    subst same
    have names := Table.keys_put name value scope.bindings
    refine ⟨scope.declare name value, rfl, rfl, ⟨_, names.symm⟩, ?_⟩
    intro still
    have bound : name ∈ scope.bindings.map Prod.fst := known still scope found
    rwa [if_pos bound, List.append_nil] at names
  · exact ⟨scope, rfl, rfl, List.prefix_rfl, fun _ => rfl⟩

end Extends

/-- A function remembers a scope of the heap, and its body and its parameters are lawful. -/
def Holds (law : Law) (heap : Heap) : Value → Prop
  | .function closure => closure.scope < heap.scopes.size ∧ law.Part (.statement closure.body) ∧
      ∀ name ∈ closure.parameters, law.Declares name
  | _ => True

theorem Holds.mono {before after : Heap} (holds : before.Holds law value)
    (grows : before.scopes.size ≤ after.scopes.size) : after.Holds law value := by
  cases value with
  | function closure => exact ⟨Nat.lt_of_lt_of_le holds.1 grows, holds.2⟩
  | _ => trivial

/-- The first scope has no parent, every other one has an older one, and what is bound is lawful, with
functions that remember scopes of the heap. -/
structure Rooted (law : Law) (heap : Heap) : Prop where
  top : ∃ scope, heap.scope? 0 = some scope ∧ scope.parent = none
  inner : ∀ id scope, heap.scope? id = some scope → id ≠ 0 →
    ∃ parent, scope.parent = some parent ∧ parent < id
  held : ∀ id scope binding, heap.scope? id = some scope → binding ∈ scope.bindings →
    law.Declares binding.1 ∧ heap.Holds law binding.2

namespace Rooted

variable {law : Law} {heap : Heap}

theorem size_pos (rooted : Rooted law heap) : 0 < heap.scopes.size := by
  obtain ⟨_, found, _⟩ := rooted.top
  exact scope?_lt found

theorem newScope (rooted : Rooted law heap) (live : parent < heap.scopes.size) :
    Rooted law (heap.newScope (some parent)).2 := by
  have extends' : heap.Extends (fun _ => False) (heap.newScope (some parent)).2 :=
    .newScope heap (some parent)
  have grows := extends'.size_le
  obtain ⟨scope, found, top⟩ := rooted.top
  refine ⟨⟨scope, ?_, top⟩, ?_, ?_⟩
  · rw [scope?_newScope, if_neg (Nat.ne_of_lt rooted.size_pos), found]
  · intro id scope found inside
    rw [scope?_newScope] at found
    split at found
    · obtain rfl := Option.some.inj found
      rename_i last
      exact ⟨parent, rfl, last ▸ live⟩
    · exact rooted.inner id scope found inside
  · intro id scope binding found member
    rw [scope?_newScope] at found
    split at found
    · obtain rfl := Option.some.inj found
      cases member
    · exact (rooted.held id scope binding found member).imp_right (·.mono grows)

theorem declare (rooted : Rooted law heap) (named : law.Declares name)
    (holds : heap.Holds law value) : Rooted law (heap.declare owner name value) := by
  have found_declare {id : ScopeId} {scope : Scope}
      (found : (heap.declare owner name value).scope? id = some scope) :
      ∃ old, heap.scope? id = some old ∧ scope.parent = old.parent ∧
        ∀ binding ∈ scope.bindings, binding = (name, value) ∨ binding ∈ old.bindings := by
    rw [scope?_declare] at found
    split at found
    · obtain ⟨old, found', rfl⟩ := Option.map_eq_some_iff.mp found
      exact ⟨old, found', rfl, fun _ => Table.mem_of_mem_put⟩
    · exact ⟨scope, found, rfl, fun _ => .inr⟩
  have grows : heap.scopes.size ≤ (heap.declare owner name value).scopes.size :=
    Nat.le_of_eq Array.size_modify.symm
  obtain ⟨scope, found, top⟩ := rooted.top
  refine ⟨?_, ?_, ?_⟩
  · obtain ⟨scope', now⟩ := exists_scope (Nat.lt_of_lt_of_le (scope?_lt found) grows)
    obtain ⟨old, found', parent, _⟩ := found_declare now
    rw [found] at found'
    exact ⟨scope', now, parent.trans (Option.some.inj found' ▸ top)⟩
  · intro id scope found inside
    obtain ⟨old, found', parent, _⟩ := found_declare found
    rw [parent]
    exact rooted.inner id old found' inside
  · intro id scope binding found member
    obtain ⟨old, found', _, bindings⟩ := found_declare found
    rcases bindings binding member with rfl | member
    · exact ⟨named, holds.mono grows⟩
    · exact (rooted.held id old binding found' member).imp_right (·.mono grows)

end Rooted

/-- What is found along the parents of a scope is bound there. -/
theorem find?_bound {heap : Heap} (found : heap.find? id name = some (owner, value)) :
    ∃ scope, heap.scope? owner = some scope ∧ (name, value) ∈ scope.bindings := by
  fun_induction find? heap id name with
  | case1 => cases found
  | case2 id scope present value bound =>
    cases found
    obtain ⟨before, after, same, _⟩ := List.lookup_eq_some_iff.mp bound
    exact ⟨scope, present, by simp [same]⟩
  | case3 _ _ _ _ _ _ _ ih => exact ih found
  | case4 => cases found
  | case5 => cases found

end

/-- The way from a scope along its parents comes to an end, in the global scope. -/
inductive Grounded (heap : Heap) : ScopeId → Prop where
  | top (found : heap.scope? Machine.globalScope = some scope) (outermost : scope.parent = none) :
      Grounded heap Machine.globalScope
  | inner {id parent : ScopeId} (found : heap.scope? id = some scope)
      (inside : scope.parent = some parent) (outer : Grounded heap parent) : Grounded heap id

theorem Rooted.grounded {heap : Heap} {id : ScopeId} (rooted : Rooted law heap)
    (live : id < heap.scopes.size) : heap.Grounded id := by
  -- Parents are older, so the induction is on the scope itself.
  induction id using Nat.strongRecOn with
  | ind id ih =>
    by_cases outermost : id = 0
    · subst outermost
      obtain ⟨scope, found, top⟩ := rooted.top
      exact .top found top
    · obtain ⟨scope, found⟩ := exists_scope live
      obtain ⟨parent, inside, older⟩ := rooted.inner id scope found outermost
      exact .inner found inside (ih parent older (Nat.lt_trans older live))

end Heap
end ScriptKit
