import ScriptKit.Proofs.Evaluation.Registers
import ScriptKit.Proofs.Evaluation.Scopes

/-!
What evaluating a node leaves alone, however it ends. The scopes that are there stay where they are in
the tree, and none but the current one gets a name it did not have; nor does that one from a block or
an expression. So in every state that running can reach, the way outward from any scope ends at the
global one. All of this is relative to a law: from lawful nodes only lawful ones are reached, and only
lawful names are bound.
-/
namespace ScriptKit

open Run

/-- An expression or a block binds no name in the scope it is evaluated in. -/
def Node.isClosed : Node → Bool
  | .statement (.block ..) => true
  | node => node.isExpression

namespace Machine

/-- The scopes are a lawful tree, the current one is in it, and so is that of a function to be
returned. -/
structure Rooted (law : Law) (machine : Machine) : Prop where
  heap : machine.heap.Rooted law
  scope : machine.scope < machine.heap.scopes.size
  pending : ∀ value, machine.pending = some value → machine.heap.Holds law value

theorem Rooted.initial : Rooted law Machine.initial := by
  refine ⟨⟨⟨⟨none, []⟩, rfl, rfl⟩, ?_, ?_⟩, Nat.zero_lt_one, fun _ filled => nomatch filled⟩
  · intro id scope found inside
    exact absurd (Nat.lt_one_iff.mp (Heap.scope?_lt found)) inside
  · intro id scope binding found member
    obtain rfl := Nat.lt_one_iff.mp (Heap.scope?_lt found)
    cases Option.some.inj found
    cases member

/-- One machine comes from the other, in the same scope, and names are new to gaining scopes only. -/
structure Advances (law : Law) (gaining : ScopeId → Prop) (before after : Machine) : Prop where
  scope : after.scope = before.scope
  heap : before.heap.Extends gaining after.heap
  rooted : after.Rooted law

namespace Advances

variable {law : Law} {gaining : ScopeId → Prop} {before middle after : Machine}

theorem refl (rooted : before.Rooted law) : Advances law gaining before before :=
  ⟨rfl, .refl before.heap, rooted⟩

theorem trans (first : Advances law gaining before middle)
    (second : Advances law gaining middle after) : Advances law gaining before after :=
  ⟨second.scope.trans first.scope, first.heap.trans second.heap, second.rooted⟩

theorem holds (advances : Advances law gaining before after) (held : before.heap.Holds law value) :
    after.heap.Holds law value :=
  held.mono advances.heap.size_le

end Advances
end Machine

/-- From a machine, the plain action advances and gives a value that holds in the heap it reaches, or
fails; and the other action does the same. -/
def Framed {α : Type} (law : Law) (gaining : ScopeId → Prop) (holds : Heap → α → Prop)
    (other plain : Run α) (before : Machine) : Prop :=
  ∀ result after, Yields plain before result after → Yields other before result after ∧
    before.Advances law gaining after ∧ ∀ value, result = .ok value → holds after.heap value

namespace Framed

variable {α β : Type} {law : Law} {gaining : ScopeId → Prop} {holds : Heap → α → Prop}
  {holds' : Heap → β → Prop} {before : Machine}

theorem pure (rooted : before.Rooted law) (held : holds before.heap value) :
    Framed law gaining holds (pure value) (pure value) before := by
  intro result after run
  obtain ⟨rfl, rfl⟩ := yields_pure.mp run
  refine ⟨run, .refl rooted, ?_⟩
  rintro _ ⟨⟩
  exact held

theorem fail (rooted : before.Rooted law) (fault : RunFault) :
    Framed law gaining holds (fail fault) (fail fault) before := by
  intro result after run
  obtain ⟨rfl, rfl⟩ := yields_fail.mp run
  exact ⟨run, .refl rooted, nofun⟩

theorem settle (rooted : before.Rooted law)
    (held : ∀ value, outcome = .ok value → holds before.heap value) :
    Framed law gaining holds (settle outcome) (settle outcome) before := by
  cases outcome with
  | ok value => exact .pure rooted (held value rfl)
  | error fault => exact .fail rooted fault

theorem bind {other plain : Run α} {next next' : α → Run β}
    (first : Framed law gaining holds other plain before)
    (rest : ∀ value middle, before.Advances law gaining middle → holds middle.heap value →
      Framed law gaining holds' (next value) (next' value) middle) :
    Framed law gaining holds' (other >>= next) (plain >>= next') before := by
  intro result after run
  rcases yields_bind.mp run with ⟨value, middle, ran, run⟩ | ⟨fault, ran, rfl⟩
  · obtain ⟨same, advances, held⟩ := first _ _ ran
    obtain ⟨same', advances', held'⟩ := rest value middle advances (held value rfl) _ _ run
    exact ⟨same.bind same', advances.trans advances', held'⟩
  · obtain ⟨same, advances, _⟩ := first _ _ ran
    exact ⟨same.bind_error, advances, nofun⟩

theorem weaken {wider : ScopeId → Prop} {other plain : Run α}
    (framed : Framed law gaining holds other plain before)
    (includes : ∀ id, id < before.heap.scopes.size → gaining id → wider id) :
    Framed law wider holds other plain before := by
  intro result after run
  obtain ⟨same, advances, held⟩ := framed result after run
  exact ⟨same, ⟨advances.scope, advances.heap.weaken includes, advances.rooted⟩, held⟩

/-- An action that changes the machine and cannot fail. -/
theorem modify {change : Machine → Machine}
    (advances : before.Advances law gaining (change before)) :
    Framed law gaining (fun _ _ => True) (modify change : Run Unit) (modify change) before := by
  intro result after run
  obtain ⟨rfl, rfl⟩ := yields_modify.mp run
  exact ⟨run, advances, fun _ _ => trivial⟩

theorem get (rooted : before.Rooted law) :
    Framed law gaining (fun heap machine => heap = machine.heap ∧ machine.scope = before.scope)
      (get : Run Machine) get before := by
  intro result after run
  obtain ⟨rfl, rfl⟩ := yields_get.mp run
  refine ⟨run, .refl rooted, ?_⟩
  rintro _ ⟨⟩
  exact ⟨rfl, rfl⟩

theorem isReturning (rooted : before.Rooted law) :
    Framed law gaining (fun _ _ => True) isReturning isReturning before := by
  intro result after run
  obtain ⟨rfl, rfl⟩ := yields_isReturning.mp run
  exact ⟨run, .refl rooted, fun _ _ => trivial⟩

/-- What a name stands for is bound in a scope. -/
theorem lookup (rooted : before.Rooted law) (file : Option String) (span : Span) (name : String) :
    Framed law gaining (fun heap found => heap.Holds law found.2 ∧ law.Declares name ∧
        ∃ scope, heap.scope? found.1 = some scope ∧ name ∈ scope.names)
      (lookup file span name) (lookup file span name) before := by
  intro result after run
  cases result with
  | error fault =>
    obtain ⟨_, _, rfl⟩ := yields_lookup_error.mp run
    exact ⟨run, .refl rooted, fun _ given => nomatch given⟩
  | ok found =>
    obtain ⟨bound, rfl⟩ := yields_lookup_ok.mp run
    obtain ⟨owner, value⟩ := found
    obtain ⟨scope, present, member⟩ := Heap.find?_bound bound
    obtain ⟨named, held⟩ := rooted.heap.held owner scope _ present member
    refine ⟨run, .refl rooted, ?_⟩
    rintro _ ⟨⟩
    exact ⟨held, named, scope, present, List.mem_map_of_mem member⟩

theorem declare (rooted : before.Rooted law) (named : law.Declares name)
    (held : before.heap.Holds law value)
    (known : ¬ gaining owner → ∀ scope, before.heap.scope? owner = some scope →
      name ∈ scope.names) :
    Framed law gaining (fun _ _ => True) (declare owner name value) (declare owner name value)
      before := by
  have extends' : before.heap.Extends gaining (before.heap.declare owner name value) :=
    .declare before.heap value known
  refine .modify ⟨rfl, extends', rooted.heap.declare named held, ?_, ?_⟩
  · exact Nat.lt_of_lt_of_le rooted.scope extends'.size_le
  · intro value filled
    exact (rooted.pending value filled).mono extends'.size_le

theorem bindParameters (rooted : before.Rooted law) (gains : gaining scope)
    (named : ∀ name ∈ parameters, law.Declares name)
    (held : ∀ value ∈ values, before.heap.Holds law value) :
    Framed law gaining (fun _ _ => True) (bindParameters scope parameters values)
      (bindParameters scope parameters values) before := by
  induction parameters generalizing values before with
  | nil =>
    rw [Run.bindParameters]
    exact .pure rooted trivial
  | cons name names ih =>
    obtain ⟨named, named'⟩ := List.forall_mem_cons.mp named
    cases values with
    | nil =>
      have missing : before.heap.Holds law .undefined := trivial
      refine (declare rooted named missing fun still => absurd gains still).bind
        fun _ middle advances _ => ?_
      exact ih advances.rooted named' fun _ member => absurd member List.not_mem_nil
    | cons value values =>
      obtain ⟨first, others⟩ := List.forall_mem_cons.mp held
      refine (declare rooted named first fun still => absurd gains still).bind
        fun _ middle advances _ => ?_
      exact ih advances.rooted named' fun value member => advances.holds (others value member)

theorem takeReturn (rooted : before.Rooted law) (held : before.heap.Holds law value) :
    Framed law gaining (Heap.Holds law) (takeReturn value) (takeReturn value) before := by
  intro result after run
  have same := run
  change Yields _ (before.store.machine before.scope before.pending) result after at run
  obtain ⟨rfl, rfl⟩ := yields_takeReturn.mp run
  refine ⟨same, ⟨rfl, .refl before.heap, rooted.heap, rooted.scope, ?_⟩, ?_⟩
  · exact fun _ filled => nomatch filled
  · rintro _ ⟨⟩
    cases slot : before.pending with
    | none => exact held
    | some returned => exact rooted.pending returned slot

theorem within {other plain : Run α} {inner : ScopeId} (rooted : before.Rooted law)
    (inside : Framed law gaining holds other plain { before with scope := inner }) :
    Framed law gaining holds (within inner other) (within inner plain) before := by
  intro result after run
  change Yields _ (before.store.machine before.scope before.pending) result after at run
  obtain ⟨reached, ran, rfl⟩ := yields_within.mp run
  obtain ⟨same, advances, held⟩ := inside result reached ran
  have same' : Yields (Run.within inner other) (before.store.machine before.scope before.pending)
      result (reached.store.machine before.scope reached.pending) :=
    yields_within.mpr ⟨reached, same, rfl⟩
  refine ⟨same', ⟨rfl, advances.heap, advances.rooted.heap, ?_, advances.rooted.pending⟩, held⟩
  exact Nat.lt_of_lt_of_le rooted.scope advances.heap.size_le

/-- What is done with a new scope may bind names there, for it was not there before. -/
theorem newScope {next next' : ScopeId → Run α} (rooted : before.Rooted law)
    (live : parent < before.heap.scopes.size)
    (rest : ∀ inner middle, before.Advances law (fun _ => False) middle →
      inner < middle.heap.scopes.size →
      Framed law (· = inner) holds (next inner) (next' inner) middle) :
    Framed law (fun _ => False) holds (newScope parent >>= next) (newScope parent >>= next')
      before := by
  intro result after run
  have made : Yields (Run.newScope parent) before (.ok before.heap.scopes.size)
      { before with heap := (before.heap.newScope (some parent)).2 } := rfl
  have extends' : before.heap.Extends (fun _ => False) (before.heap.newScope (some parent)).2 :=
    .newScope before.heap (some parent)
  have inside : before.heap.scopes.size < (before.heap.newScope (some parent)).2.scopes.size :=
    Nat.lt_of_lt_of_eq (Nat.lt_succ_self _) (Array.size_push _).symm
  have advances : before.Advances law (fun _ => False)
      { before with heap := (before.heap.newScope (some parent)).2 } := by
    refine ⟨rfl, extends', rooted.heap.newScope live, ?_, ?_⟩
    · exact Nat.lt_of_lt_of_le rooted.scope extends'.size_le
    · intro value filled
      exact (rooted.pending value filled).mono extends'.size_le
  obtain ⟨same, advances', held⟩ :=
    rest before.heap.scopes.size _ advances inside result after (run.rest made)
  refine ⟨made.bind same, ⟨advances'.scope, ?_, advances'.rooted⟩, held⟩
  have whole : before.heap.Extends (· = before.heap.scopes.size) after.heap :=
    (extends'.weaken fun _ _ => False.elim).trans advances'.heap
  exact whole.weaken fun id earlier last => Nat.ne_of_lt earlier last

end Framed

/-- No operator gives a function. -/
theorem Heap.holds_applyBinary {heap : Heap}
    (applied : applyBinary file span operator left right = .ok value) : heap.Holds law value := by
  cases value with
  | function closure =>
    unfold applyBinary at applied
    split at applied
    · cases applied
    split at applied
    · cases applied
    split at applied
    · obtain ⟨_, _, applied⟩ := bind_eq_ok.mp applied
      obtain ⟨_, _, applied⟩ := bind_eq_ok.mp applied
      cases applied
    split at applied
    · split at applied <;> cases applied
    · split at applied
      · unfold applyArithmetic at applied
        split at applied <;> cases applied
      · cases applied
  | _ => trivial

/-- The lawful nodes are framed, and all but blocks and expressions may bind names in their scope. -/
def AllFramed (law : Law) (other plain : Node → Run Value) : Prop :=
  ∀ node (before : Machine), law.Part node → before.Rooted law →
    Framed law (fun id => node.isClosed = false ∧ id = before.scope) (Heap.Holds law) (other node)
      (plain node) before

namespace AllFramed

variable {law : Law} {other plain : Node → Run Value} {before : Machine} {gaining : ScopeId → Prop}

theorem expression (all : AllFramed law other plain) (part : law.Part (.expression node))
    (rooted : before.Rooted law) :
    Framed law gaining (Heap.Holds law) (other (.expression node)) (plain (.expression node))
      before :=
  (all (.expression node) before part rooted).weaken fun _ _ gains => nomatch gains.1

theorem statement (all : AllFramed law other plain) (part : law.Part (.statement node))
    (rooted : before.Rooted law) (gains : gaining before.scope) :
    Framed law gaining (Heap.Holds law) (other (.statement node)) (plain (.statement node))
      before := by
  refine (all (.statement node) before part rooted).weaken ?_
  rintro id _ ⟨_, rfl⟩
  exact gains

theorem evaluateAll (all : AllFramed law other plain)
    (parts : ∀ expression ∈ expressions, law.Part (.expression expression))
    (rooted : before.Rooted law) :
    Framed law gaining (fun heap values => ∀ value ∈ values, heap.Holds law value)
      (evaluateAll other expressions) (evaluateAll plain expressions) before := by
  induction expressions generalizing before with
  | nil => exact .pure rooted fun _ member => nomatch member
  | cons expression rest ih =>
    obtain ⟨first, others⟩ := List.forall_mem_cons.mp parts
    refine (all.expression first rooted).bind fun value middle advances held => ?_
    refine (ih others advances.rooted).bind fun values last advances' held' => ?_
    exact .pure advances'.rooted (List.forall_mem_cons.mpr ⟨advances'.holds held, held'⟩)

theorem runCall (all : AllFramed law other plain) (file : Option String) (span : Span)
    (callee : String) (parts : ∀ argument ∈ arguments, law.Part (.expression argument))
    (rooted : before.Rooted law) :
    Framed law (fun _ => False) (Heap.Holds law) (runCall file other span callee arguments)
      (runCall file plain span callee arguments) before := by
  refine (Framed.lookup rooted file span callee).bind fun found looked advances bound => ?_
  refine (all.evaluateAll parts advances.rooted).bind fun values middle advances' held => ?_
  obtain ⟨_, target⟩ := found
  cases target with
  | function closure =>
    obtain ⟨live, body, named⟩ := advances'.holds bound.1
    refine .newScope advances'.rooted live fun inner entered fresh inside => ?_
    have held' : ∀ value ∈ values, entered.heap.Holds law value :=
      fun value member => fresh.holds (held value member)
    refine (Framed.bindParameters fresh.rooted (by rfl) named held').bind
      fun _ ready advances'' _ => ?_
    have live' : inner < ready.heap.scopes.size :=
      Nat.lt_of_lt_of_le inside advances''.heap.size_le
    have rooted' : Machine.Rooted law { ready with scope := inner } :=
      ⟨advances''.rooted.heap, live', advances''.rooted.pending⟩
    refine (Framed.within advances''.rooted (all.statement body rooted' (by rfl))).bind
      fun result last advances''' held'' => ?_
    exact .takeReturn advances'''.rooted held''
  | _ => exact .fail advances'.rooted _

theorem evaluateExpression (all : AllFramed law other plain) (file : Option String)
    (part : law.Part (.expression node)) (rooted : before.Rooted law) :
    Framed law (fun _ => False) (Heap.Holds law) (evaluateExpression file other node)
      (evaluateExpression file plain node) before := by
  cases node with
  | literal span value => exact .pure rooted (by cases value <;> trivial)
  | identifier span name =>
    refine (Framed.lookup rooted file span name).bind fun found middle advances bound => ?_
    exact .pure advances.rooted bound.1
  | binary span operator left right =>
    have first : law.Part (.expression left) := law.inner part (by simp [Node.children])
    have second : law.Part (.expression right) := law.inner part (by simp [Node.children])
    refine (all.expression first rooted).bind fun value middle advances _ => ?_
    refine (all.expression second advances.rooted).bind fun value' last advances' _ => ?_
    exact .settle advances'.rooted fun value => Heap.holds_applyBinary
  | logical span operator left right =>
    have first : law.Part (.expression left) := law.inner part (by simp [Node.children])
    have second : law.Part (.expression right) := law.inner part (by simp [Node.children])
    refine (all.expression first rooted).bind fun value middle advances held => ?_
    split
    · exact all.expression second advances.rooted
    · exact .pure advances.rooted held
  | call span callee arguments =>
    exact all.runCall file span callee (fun _ member => law.inner part (List.mem_map_of_mem member))
      rooted

/-- After a statement the slot for a return is looked at, which changes nothing. -/
theorem checked {other plain : Run Value} {next next' : Value → Run Value}
    (first : Framed law gaining (Heap.Holds law) other plain before)
    (rest : ∀ value middle, before.Advances law gaining middle → middle.heap.Holds law value →
      Framed law gaining (Heap.Holds law) (next value) (next' value) middle) :
    Framed law gaining (Heap.Holds law)
      (do let value ← other; if ← isReturning then return value else next value)
      (do let value ← plain; if ← isReturning then return value else next' value) before := by
  refine first.bind fun value middle advances held => ?_
  refine (Framed.isReturning advances.rooted).bind fun returning looked advances' _ => ?_
  split
  · exact .pure advances'.rooted (advances'.holds held)
  · exact rest value looked (advances.trans advances') (advances'.holds held)

theorem runStatements (all : AllFramed law other plain)
    (parts : ∀ statement ∈ statements, law.Part (.statement statement))
    (rooted : before.Rooted law) (gains : gaining before.scope)
    (held : before.heap.Holds law previous) :
    Framed law gaining (Heap.Holds law) (runStatements other previous statements)
      (runStatements plain previous statements) before := by
  induction statements generalizing before previous with
  | nil => exact .pure rooted held
  | cons statement rest ih =>
    obtain ⟨first, others⟩ := List.forall_mem_cons.mp parts
    refine checked (all.statement first rooted gains) fun value middle advances held => ?_
    exact ih others advances.rooted (advances.scope.symm ▸ gains) held

theorem runLoop (all : AllFramed law other plain) (tested : law.Part (.expression test))
    (repeated : law.Part (.statement body)) (rounds : Nat) (rooted : before.Rooted law)
    (gains : gaining before.scope) (held : before.heap.Holds law previous) :
    Framed law gaining (Heap.Holds law) (runLoop other test body rounds previous)
      (runLoop plain test body rounds previous) before := by
  induction rounds generalizing before previous with
  | zero => exact .fail rooted .outOfFuel
  | succ rounds ih =>
    refine (all.expression tested rooted).bind fun condition middle advances _ => ?_
    have gains' : gaining middle.scope := advances.scope.symm ▸ gains
    split
    · refine checked (all.statement repeated advances.rooted gains')
        fun value last advances' held => ?_
      exact ih advances'.rooted (advances'.scope.symm ▸ gains') held
    · exact .pure advances.rooted (advances.holds held)

theorem runBlock (all : AllFramed law other plain) (file : Option String) (fuel : Nat)
    (part : law.Part (.statement (.block span body))) (rooted : before.Rooted law) :
    Framed law (fun _ => False) (Heap.Holds law) (runStatement file fuel other (.block span body))
      (runStatement file fuel plain (.block span body)) before := by
  refine (Framed.get rooted).bind fun machine looked advances same => ?_
  have live : machine.scope < looked.heap.scopes.size := by
    rw [same.2, ← advances.scope]
    exact advances.rooted.scope
  refine .newScope advances.rooted live fun inner entered fresh inside => ?_
  have rooted' : Machine.Rooted law { entered with scope := inner } :=
    ⟨fresh.rooted.heap, inside, fresh.rooted.pending⟩
  refine .within fresh.rooted (all.runStatements ?_ rooted' rfl trivial)
  exact fun _ member => law.inner part (List.mem_map_of_mem member)

theorem runFunction (file : Option String) (fuel : Nat)
    (part : law.Part (.statement (.function span name parameters body)))
    (rooted : before.Rooted law) :
    Framed law (· = before.scope) (Heap.Holds law)
      (runStatement file fuel other (.function span name parameters body))
      (runStatement file fuel plain (.function span name parameters body)) before := by
  intro result after run
  let closure : Closure := ⟨before.heap.functions, name, parameters, body, before.scope⟩
  let heap : Heap := { before.heap with functions := before.heap.functions + 1 }
  have made {recur : Node → Run Value} :
      Yields (runStatement file fuel recur (.function span name parameters body)) before
        (.ok (.function closure))
        { before with heap := heap.declare before.scope name (.function closure) } := rfl
  obtain ⟨rfl, rfl⟩ := run.unique made
  have counted : before.heap.Extends (· = before.scope) heap := .refl before.heap
  have extends' : heap.Extends (· = before.scope)
      (heap.declare before.scope name (.function closure)) :=
    .declare heap _ fun still => absurd rfl still
  have rooted' : heap.Rooted law := ⟨rooted.heap.top, rooted.heap.inner, rooted.heap.held⟩
  have named : law.Declares name :=
    law.declares part (Symbols.has_append.mpr (.inl (.inl (List.mem_singleton_self name))))
  have live : heap.Holds law (.function closure) := by
    refine ⟨rooted.scope, law.inner part (List.mem_singleton_self _), fun parameter member => ?_⟩
    exact law.declares part (Symbols.has_append.mpr (.inl (.inr member)))
  refine ⟨made, ⟨rfl, counted.trans extends', rooted'.declare named live, ?_, ?_⟩, ?_⟩
  · exact Nat.lt_of_lt_of_le rooted.scope extends'.size_le
  · intro value filled
    exact (rooted.pending value filled).mono extends'.size_le
  · rintro _ ⟨⟩
    exact live.mono extends'.size_le

theorem runStatement (all : AllFramed law other plain) (file : Option String) (fuel : Nat)
    (part : law.Part (.statement node)) (rooted : before.Rooted law) :
    Framed law (· = before.scope) (Heap.Holds law) (runStatement file fuel other node)
      (runStatement file fuel plain node) before := by
  cases node with
  | declare span name value =>
    have inside : law.Part (.expression value) := law.inner part (List.mem_singleton_self _)
    have named : law.Declares name := law.declares part (.inr (List.mem_singleton_self name))
    refine (all.expression inside rooted).bind fun result middle advances held => ?_
    refine (Framed.get advances.rooted).bind fun machine looked advances' same => ?_
    have current : machine.scope = before.scope := same.2.trans advances.scope
    have declared : Framed law (· = before.scope) (fun _ _ => True)
        (Run.declare machine.scope name result) (Run.declare machine.scope name result) looked :=
      .declare advances'.rooted named (advances'.holds held) fun still => absurd current still
    refine declared.bind fun _ last advances'' _ => ?_
    exact .pure advances''.rooted (advances''.holds (advances'.holds held))
  | assign span name value =>
    have inside : law.Part (.expression value) := law.inner part (List.mem_singleton_self _)
    refine (all.expression inside rooted).bind fun result middle advances held => ?_
    refine (Framed.lookup advances.rooted file span name).bind fun found looked advances' bound => ?_
    obtain ⟨_, named, scope', present', member⟩ := bound
    have known : ¬ found.1 = before.scope →
        ∀ scope, looked.heap.scope? found.1 = some scope → name ∈ scope.names := by
      intro _ scope present
      rw [present] at present'
      exact Option.some.inj present' ▸ member
    refine (Framed.declare advances'.rooted named (advances'.holds held) known).bind
      fun _ last advances'' _ => ?_
    exact .pure advances''.rooted (advances''.holds (advances'.holds held))
  | block span body => exact (all.runBlock file fuel part rooted).weaken fun _ _ => False.elim
  | branch span test consequent alternate =>
    have tested : law.Part (.expression test) := law.inner part (by simp [Node.children])
    have taken : law.Part (.statement consequent) := law.inner part (by simp [Node.children])
    refine (all.expression tested rooted).bind fun condition middle advances _ => ?_
    split
    · exact all.statement taken advances.rooted advances.scope
    · cases alternate with
      | some alternate =>
        have otherwise : law.Part (.statement alternate) := law.inner part (by simp [Node.children])
        exact all.statement otherwise advances.rooted advances.scope
      | none => exact .pure advances.rooted trivial
  | loop span test body =>
    have tested : law.Part (.expression test) := law.inner part (by simp [Node.children])
    have repeated : law.Part (.statement body) := law.inner part (by simp [Node.children])
    exact all.runLoop tested repeated fuel rooted rfl trivial
  | function span name parameters body => exact runFunction file fuel part rooted
  | giveBack span argument =>
    have inside : law.Part (.expression argument) := law.inner part (List.mem_singleton_self _)
    refine (all.expression inside rooted).bind fun value middle advances held => ?_
    have filled : middle.Advances law (· = before.scope) { middle with pending := some value } := by
      refine ⟨rfl, .refl middle.heap, advances.rooted.heap, advances.rooted.scope, ?_⟩
      rintro _ ⟨⟩
      exact held
    refine (Framed.modify filled).bind fun _ last advances' _ => ?_
    exact .pure advances'.rooted (advances'.holds held)
  | print span argument =>
    have inside : law.Part (.expression argument) := law.inner part (List.mem_singleton_self _)
    refine (all.expression inside rooted).bind fun value middle advances held => ?_
    have rendered : Framed law (· = before.scope) (fun _ _ => True) (Run.settle value.shown)
        (Run.settle value.shown) middle := .settle advances.rooted fun _ _ => trivial
    refine rendered.bind fun text shown advances' _ => ?_
    have printed : shown.Advances law (· = before.scope)
        { shown with output := shown.output ++ text ++ "\n" } :=
      ⟨rfl, .refl shown.heap, advances'.rooted.heap, advances'.rooted.scope,
        advances'.rooted.pending⟩
    refine (Framed.modify printed).bind fun _ last advances'' _ => ?_
    exact .pure advances''.rooted (advances''.holds (advances'.holds held))
  | importFile span path => exact .fail rooted _
  | call span callee arguments =>
    have parts (argument : Expression) (member : argument ∈ arguments) :
        law.Part (.expression argument) := law.inner part (List.mem_map_of_mem member)
    exact (all.runCall file span callee parts rooted).weaken fun _ _ => False.elim

/-- One node is framed when the nodes inside it are. -/
theorem evaluateStep (all : AllFramed law other plain) (file : Option String) (fuel : Nat) :
    AllFramed law (evaluateStep file fuel other) (evaluateStep file fuel plain) := by
  intro node before part rooted
  cases node with
  | expression value =>
    exact (all.evaluateExpression file part rooted).weaken fun _ _ => False.elim
  | statement value =>
    have framed := all.runStatement file fuel part rooted
    cases value with
    | block span body => exact (all.runBlock file fuel part rooted).weaken fun _ _ => False.elim
    | call span callee arguments =>
      have parts (argument : Expression) (member : argument ∈ arguments) :
          law.Part (.expression argument) := law.inner part (List.mem_map_of_mem member)
      exact (all.runCall file span callee parts rooted).weaken fun _ _ => False.elim
    | _ => exact framed.weaken fun _ _ current => ⟨rfl, current⟩
  | program value =>
    have parts (statement : Statement) (member : statement ∈ value.body) :
        law.Part (.statement statement) := law.inner part (List.mem_map_of_mem member)
    exact all.runStatements parts rooted ⟨rfl, rfl⟩ trivial
  | span value => exact .fail rooted .unhandledNode

/-- An evaluation that does the same for lawful nodes from rooted machines is framed with the plain
one. -/
theorem congr (all : AllFramed law plain plain)
    (same : ∀ node (before : Machine), law.Part node → before.Rooted law →
      (other node).run.run before = (plain node).run.run before) : AllFramed law other plain := by
  intro node before part rooted result after run
  obtain ⟨_, advances, held⟩ := all node before part rooted result after run
  exact ⟨(same node before part rooted).trans run, advances, held⟩

end AllFramed

/-- The induction is on the fuel. -/
theorem allFramed_evaluate (law : Law) (file : Option String) (fuel : Nat) :
    AllFramed law (evaluate file fuel) (evaluate file fuel) := by
  induction fuel with
  | zero => exact fun _ _ _ rooted => .fail rooted .outOfFuel
  | succ fuel ih => exact ih.evaluateStep file fuel

namespace Machine.Rooted

variable {law : Law} {machine inner : Machine}

theorem evaluate (rooted : machine.Rooted law) (file : Option String) (fuel : Nat) (node : Node)
    (part : law.Part node) :
    machine.Advances law (fun id => node.isClosed = false ∧ id = machine.scope)
      (machine.evaluate file fuel node).2 ∧
    ∀ value, (machine.evaluate file fuel node).1 = .ok value →
      (machine.evaluate file fuel node).2.heap.Holds law value :=
  (allFramed_evaluate law file fuel node machine part rooted _ _ (yields_run _ machine)).2

/-- Only what is done for lawful nodes from rooted machines makes a difference. -/
theorem entered (rooted : machine.Rooted law) (part : law.Part node)
    (same : ∀ nested (reached : Machine), law.Part nested → reached.Rooted law →
      (other nested).run.run reached = (ScriptKit.evaluate file fuel nested).run.run reached) :
    (evaluateStep file fuel other node).run.run machine = machine.evaluate file (fuel + 1) node := by
  have framed := ((allFramed_evaluate law file fuel).congr same).evaluateStep file fuel
  exact (framed node machine part rooted _ _ (yields_run _ machine)).1

end Machine.Rooted

namespace Machine

/-- While the node is evaluated, a nested evaluation is entered from `inner`: what such evaluations do
from there, and from nowhere else, makes a difference to the outcome. -/
def Enters (machine : Machine) (file : Option String) (fuel : Nat) (node : Node)
    (inner : Machine) : Prop :=
  ∃ other : Node → Run Value,
    (∀ nested reached, reached ≠ inner →
      (other nested).run.run reached = (ScriptKit.evaluate file fuel nested).run.run reached) ∧
    (evaluateStep file fuel other node).run.run machine ≠ machine.evaluate file (fuel + 1) node

/-- The states of running: the start, those in which evaluations are entered and left at any depth,
and those between the runs of programs. -/
inductive Reached : Machine → Prop where
  | initial : Reached Machine.initial
  | entered {inner : Machine} (earlier : Reached machine)
      (enters : machine.Enters file fuel node inner) : Reached inner
  | left (earlier : Reached machine) (file : Option String) (fuel : Nat) (node : Node) :
      Reached (machine.evaluate file fuel node).2
  | ran (earlier : Reached machine) (file : Option String) (fuel : Nat) (program : Program) :
      Reached (machine.run file fuel program).2

theorem Rooted.enters {machine inner : Machine} (rooted : machine.Rooted .free)
    (enters : machine.Enters file fuel node inner) : inner.Rooted .free := by
  obtain ⟨other, same, differs⟩ := enters
  apply Classical.byContradiction
  intro unrooted
  refine differs (rooted.entered trivial fun nested reached _ rooted' => same nested reached ?_)
  rintro rfl
  exact unrooted rooted'

theorem Reached.rooted (reached : Reached machine) : machine.Rooted .free := by
  induction reached with
  | initial => exact .initial
  | entered earlier enters ih => exact ih.enters enters
  | left earlier file fuel node ih =>
    exact (ih.evaluate file fuel node trivial).1.rooted
  | ran earlier file fuel program ih =>
    have rooted := (ih.evaluate file fuel (.program program) trivial).1.rooted
    exact ⟨rooted.heap, rooted.scope, fun _ filled => nomatch filled⟩

/-- From every scope, the one that a function remembers included, the way outward ends at the global
scope. -/
structure Grounded (machine : Machine) : Prop where
  scopes : ∀ id scope, machine.heap.scope? id = some scope → machine.heap.Grounded id
  current : machine.heap.Grounded machine.scope
  bound : ∀ id scope name closure, machine.heap.scope? id = some scope →
    (name, .function closure) ∈ scope.bindings → machine.heap.Grounded closure.scope
  pending : ∀ closure, machine.pending = some (.function closure) →
    machine.heap.Grounded closure.scope

theorem Rooted.grounded {machine : Machine} (rooted : machine.Rooted law) : machine.Grounded where
  scopes _ _ found := rooted.heap.grounded (Heap.scope?_lt found)
  current := rooted.heap.grounded rooted.scope
  bound id scope _ _ found member :=
    rooted.heap.grounded (rooted.heap.held id scope _ found member).2.1
  pending closure filled := rooted.heap.grounded (rooted.pending (.function closure) filled).1

/-- In every state of running, all scopes lead to the global one. Whatever is evaluated from there, and
however it ends, the scopes that are there stay in their places with their names; the current one may
have more names, unless it is a block or an expression that is evaluated, and no other one has. -/
theorem Reached.evaluate_frames (reached : Reached machine) (file : Option String) (fuel : Nat)
    (node : Node) :
    machine.Grounded ∧
    machine.heap.Extends (fun id => node.isClosed = false ∧ id = machine.scope)
      (machine.evaluate file fuel node).2.heap ∧
    ∀ closure, (machine.evaluate file fuel node).1 = .ok (.function closure) →
      (machine.evaluate file fuel node).2.heap.Grounded closure.scope := by
  obtain ⟨advances, held⟩ := reached.rooted.evaluate file fuel node trivial
  refine ⟨reached.rooted.grounded, advances.heap, ?_⟩
  intro closure given
  exact advances.rooted.heap.grounded (held _ given).1

/-- A machine in a new scope inside the current one. -/
def deepen (machine : Machine) : Machine :=
  { machine with
    heap := (machine.heap.newScope (some machine.scope)).2
    scope := machine.heap.scopes.size }

/-- The first statement of a block is entered from a new scope. -/
theorem enters_block (machine : Machine) (file : Option String) (fuel : Nat) (span : Span)
    (statement : Statement) (rest : List Statement) :
    machine.Enters file fuel (.statement (.block span (statement :: rest))) machine.deepen := by
  classical
  let node : Node := .statement (.block span (statement :: rest))
  have ⟨fault, avoids⟩ : ∃ fault, (machine.evaluate file (fuel + 1) node).1 ≠ .error fault := by
    by_cases spent : (machine.evaluate file (fuel + 1) node).1 = .error .outOfFuel
    · refine ⟨.unhandledNode, ?_⟩
      rw [spent]
      simp
    · exact ⟨.outOfFuel, spent⟩
  -- A failure in the new scope, which the block itself does not have, is one the block ends with.
  let failing (nested : Node) : Run Value := fun reached =>
    if reached = machine.deepen then (.error fault, reached)
    else ScriptKit.evaluate file fuel nested reached
  have fails : Yields (failing (.statement statement)) machine.deepen (.error fault)
      machine.deepen := if_pos rfl
  have stops : Yields (runStatements failing .undefined (statement :: rest)) machine.deepen
      (.error fault) machine.deepen := fails.bind_error
  have looked : Yields (get : Run Machine) machine (.ok machine) machine :=
    .get
  have made : Yields (newScope machine.scope) machine (.ok machine.heap.scopes.size)
      { machine.deepen with scope := machine.scope } := rfl
  have left : Yields (within machine.heap.scopes.size
      (runStatements failing .undefined (statement :: rest)))
      (machine.deepen.store.machine machine.scope machine.pending) (.error fault)
      (machine.deepen.store.machine machine.scope machine.pending) :=
    yields_within.mpr ⟨machine.deepen, stops, rfl⟩
  have run : Yields (evaluateStep file fuel failing node) machine (.error fault)
      (machine.deepen.store.machine machine.scope machine.pending) := looked.bind (made.bind left)
  refine ⟨failing, fun nested reached differs => if_neg differs, ?_⟩
  intro same
  exact avoids (congrArg Prod.fst (same.symm.trans run))

/-- A machine inside a block, after a function was declared whose body is a declaration. -/
def declaringMachine : Machine :=
  (Machine.initial.evaluate none 9 (.statement (.function default "f" []
    (.declare default "x" (.literal default (.boolean true)))))).2.deepen

/-- Calling the function binds a name in a third scope and in none of the two that are there. -/
theorem Reached.evaluate_frames_call :
    Reached declaringMachine ∧
    (declaringMachine.evaluate none 9 (.statement (.call default "f" []))).2.heap.scopes.map
      Scope.names = #[["f"], [], ["x"]] ∧
    declaringMachine.Grounded ∧
    declaringMachine.heap.Extends (fun _ => False)
      (declaringMachine.evaluate none 9 (.statement (.call default "f" []))).2.heap := by
  have declared : Reached (Machine.initial.evaluate none 9 (.statement (.function default "f" []
      (.declare default "x" (.literal default (.boolean true)))))).2 := .left .initial none 9 _
  have reached : Reached declaringMachine :=
    .entered declared (enters_block _ none 9 default (.call default "f" []) [])
  obtain ⟨grounded, extends', _⟩ :=
    evaluate_frames reached none 9 (.statement (.call default "f" []))
  exact ⟨reached, by decide +kernel, grounded, extends'.weaken fun _ _ gains => nomatch gains.1⟩

end Machine
end ScriptKit
