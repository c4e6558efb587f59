import ScriptCore.MemberTable
import ScriptCore.Text.Basic

/-!
# Configuration

How deep activations may nest, how large member tables start, and how much native stack an
activation asks for. Every combination a builder produces is usable: a limit of zero means one, and
a stack segment is never smaller than the reserve it has to cover.
-/

namespace ScriptCore

/-- The reserve below which the native stack grows, and by how much it grows. -/
structure StackBudget where
  redZone : Nat
  segmentSize : Nat
  deriving DecidableEq

namespace StackBudget

/-- A segment smaller than the reserve is widened to it: it would be below the reserve at once. -/
def of (redZone segmentSize : Nat) : StackBudget := ⟨redZone, max segmentSize redZone⟩

def default : StackBudget := of (128 * 1024) (2 * 1024 * 1024)

/-- Activations that share one stack segment of the evaluator. -/
def activationsPerSegment : Nat := 256

/-- Runs `f` for the activation at a depth. Now and then it continues on a stack of its own, so
that the depth limit is reached before the native stack ends; the result is that of `f`. -/
def run {α : Type} (_ : StackBudget) (depth : Nat) (f : Unit → α) : α :=
  if depth % activationsPerSegment = 0 then (Task.spawn f).get else f ()

theorem run_eq {α : Type} (b : StackBudget) (depth : Nat) (f : Unit → α) :
    b.run depth f = f () := by
  unfold run
  split <;> rfl

/-- Descends `n` activations and counts two for each on the way back. -/
def descend (b : StackBudget) : Nat → Nat
  | 0 => 0
  | n + 1 => b.run (n + 1) fun _ => descend b n + 2

def debug (b : StackBudget) : String :=
  Text.record "StackBudget"
    [("red_zone", toString b.redZone), ("segment_size", toString b.segmentSize)] false

end StackBudget

/-- The limits of one frame. The last is that of the host it runs on, which no builder sets. -/
structure FrameConfig where
  maxDepth : Nat := 16384
  minTableCapacity : Nat := MemberTable.defaultMinCapacity
  budget : StackBudget := .default
  /-- The bytes of the address space that stacks are taken from. -/
  addressSpace : Nat := 140737488355328
  deriving DecidableEq

namespace FrameConfig

def default : FrameConfig := {}

/-- At least one activation is allowed. -/
def withMaxDepth (c : FrameConfig) (n : Nat) : FrameConfig := { c with maxDepth := max n 1 }

def withMinTableCapacity (c : FrameConfig) (n : Nat) : FrameConfig :=
  { c with minTableCapacity := max n 1 }

def withBudget (c : FrameConfig) (b : StackBudget) : FrameConfig := { c with budget := b }

/-- Whether an activation can be given the stack it asks for. A reserve as large as the address
space is never left, and no segment covers it. -/
def isServable (c : FrameConfig) : Bool := c.budget.redZone < c.addressSpace

def debug (c : FrameConfig) : String :=
  Text.record "FrameConfig"
    [("max_depth", toString c.maxDepth), ("min_table_capacity", toString c.minTableCapacity),
     ("stack_budget", c.budget.debug)] false

end FrameConfig

end ScriptCore
