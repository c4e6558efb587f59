import ScriptCore.Frame.Basic
import ScriptCore.Program.Syntax

/-!
# What operations answer

Every operation leaves an entry in the log: the depth after it, what it answered, and the state of
the pools. An operation on threads leaves only its answer.
-/

namespace ScriptCore

/-- What can be told of a scope. -/
inductive ScopeView where
  | pooled (key : PoolKey)
  | heap (kind : ScopeKind)
  | snapshot (kind : ScopeKind)
  | global

/-- An activation as it is seen on the stack. -/
structure FrameView where
  node : Node
  line : UInt32
  depth : Nat
  scope : Option ScopeView

/-- The state of a frame. -/
structure FrameInfo where
  depth : Nat
  line : UInt32
  scope : Option ScopeView
  node : Option Node
  isTerminated : Bool
  frames : List FrameView
  debug : String

/-- What an operation answers. -/
inductive Reply where
  | nothing
  | ok
  | flag (b : Bool)
  | count (n : Nat)
  | text (s : String)
  | value (v : Value)
  /-- A value that may be absent. -/
  | optional (v : Option Value)
  | shown (v : Value)
  | symbols (ss : List Symbol)
  | scope (s : ScopeView)
  | kind (k : Option ScopeKind)
  | slotRef (s : SlotRef)
  | slot (s : Slot)
  | table (t : MemberTable)
  | members (m : FrozenMembers)
  | completion (c : Completion)
  | error (e : EvalError)
  | invalidLoad (e : ShapeError)
  | assignError (e : AssignError)
  | config (c : FrameConfig)
  | info (i : FrameInfo)
  | trace (records : List (TraceRecord × Option ScopeView))
  | many (rs : List Reply)

/-- How an operation ended. -/
inductive StepResult where
  | reply (r : Reply)
  | failed (e : EvalError)
  | bad (f : Fault)
  | panicked

/-- A frame that was taken out of its place. -/
structure RemovedFrame where
  maxDepth : Nat
  isTerminated : Bool
  depth : Nat
  stats : PoolStats

mutual

/-- An entry of the log. -/
inductive LogEntry where
  | step (depth : Nat) (word : Option String) (result : StepResult) (stats : PoolStats)
  | registry (word : Option String) (reply : RegistryReply)

/-- What an operation on threads answers. -/
inductive RegistryReply where
  | nothing
  | ok
  | flag (b : Bool)
  | registered (this : Bool) (count : Nat)
  | removed (frame : Option RemovedFrame)
  | failed (e : EvalError)
  | bad (f : Fault)
  | log (entries : List LogEntry)

end

end ScriptCore
