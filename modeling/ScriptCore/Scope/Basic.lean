import ScriptCore.MemberTable
import ScriptCore.Node
import ScriptCore.Pool
import ScriptCore.Shape.Visibility

/-!
# Scopes

A scope is one lexical environment at run time: a shape it shares with the other activations of the
same construct, the slots of this activation, sources of further members mixed into it, and the
scope that encloses it. Three kinds differ in how long they live.

* A pooled scope belongs to a stack frame and is reached by a pool key; it ends with its depth.
* A heap scope stays for good and can be changed; closures share it.
* A frozen scope is a copy of a pooled one. It stays for good and cannot be changed.

Every chain of enclosing scopes ends at a global scope. Seen from outside a frame, a chain is a
number of frozen scopes on top of a heap scope or a global one, which is what `DurableScope` says.
Heap scopes, global scopes and member sources are shared, so they are referred to by position.
-/

namespace ScriptCore

abbrev HeapId := Nat

abbrev GlobalId := Nat

/-- The position of a source of mixed-in members. -/
abbrev SourceId := Nat

/-- What one call of a function binds. -/
structure FunctionBinding where
  callee : FunctionId
  this : Option Value
  super : Option Value

/-- A block, or the activation of a function. -/
inductive ScopeKind where
  | block
  | function (binding : FunctionBinding)

/-- An immutable copy of a scope, without the scope that encloses it. -/
structure FrozenScope where
  kind : ScopeKind
  shape : ShapeId
  members : FrozenMembers
  mixins : List SourceId

/-- Where the frozen part of a chain ends. -/
inductive Anchor where
  | heap (id : HeapId)
  | global (id : GlobalId)
  deriving DecidableEq

/-- A scope that outlives every frame: frozen scopes, innermost first, on top of an anchor. -/
structure DurableScope where
  frozen : List FrozenScope := []
  anchor : Anchor

/-- A scope of either provenance. -/
inductive ScopeRef where
  | pooled (key : PoolKey)
  | durable (scope : DurableScope)

/-- A scope in a frame. The member table belongs to the scope. -/
structure PooledScope where
  kind : ScopeKind
  previous : ScopeRef
  shape : ShapeId
  members : PoolKey
  mixins : List SourceId := []

/-- A shared scope that can be changed. -/
structure HeapScope where
  kind : ScopeKind
  previous : DurableScope
  shape : ShapeId
  members : MemberTable
  mixins : List SourceId := []

/-- The end of a chain. Its members are found by symbol, in the order they were declared. -/
structure GlobalScope where
  members : List (Symbol × Slot) := []
  mixins : List SourceId := []

/-- Something whose members can be composed into a scope. -/
inductive MemberSource where
  | scope (scope : DurableScope)
  | fixed (members : List (Symbol × Value))

/-- Where a resolved member is stored. -/
inductive SlotRef where
  | pooled (table : PoolKey) (index : Nat) (symbol : Symbol)
  | heap (id : HeapId) (index : Nat) (symbol : Symbol)
  | frozen (scope : FrozenScope) (index : Nat) (symbol : Symbol)
  | global (id : GlobalId) (symbol : Symbol)
  | mixin (source : SourceId) (symbol : Symbol)

namespace DurableScope

def ofHeap (id : HeapId) : DurableScope := { anchor := .heap id }

def ofGlobal (id : GlobalId) : DurableScope := { anchor := .global id }

def isSnapshot (d : DurableScope) : Bool := !d.frozen.isEmpty

/-- The chain with one more frozen scope innermost. -/
def push (d : DurableScope) (s : FrozenScope) : DurableScope := { d with frozen := s :: d.frozen }

end DurableScope

namespace ScopeRef

def ofGlobal (id : GlobalId) : ScopeRef := .durable (.ofGlobal id)

def isPooled : ScopeRef → Bool
  | .pooled _ => true
  | .durable _ => false

end ScopeRef

namespace SlotRef

def symbol : SlotRef → Symbol
  | .pooled _ _ s => s
  | .heap _ _ s => s
  | .frozen _ _ s => s
  | .global _ s => s
  | .mixin _ s => s

end SlotRef

namespace GlobalScope

def get? (g : GlobalScope) (s : Symbol) : Option Slot :=
  (g.members.find? fun m => m.1 = s).map (·.2)

/-- Replaces the slot of a symbol, or adds it behind the others. -/
def set (g : GlobalScope) (s : Symbol) (slot : Slot) : GlobalScope :=
  if g.members.any fun m => m.1 = s then
    { g with members := g.members.map fun m => if m.1 = s then (s, slot) else m }
  else { g with members := g.members ++ [(s, slot)] }

def size (g : GlobalScope) : Nat := g.members.length

/-- The declared symbols in ascending order, all of them or the public ones only. -/
def symbols (g : GlobalScope) (includePrivate : Bool) : List Symbol :=
  ((g.members.filter fun m => includePrivate || m.2.isPublic).map (·.1)).mergeSort Symbol.le

end GlobalScope

end ScriptCore
