import ScriptCore.Scope.Basic

/-!
# Stack traces

A trace lists the activations of a frame at one moment, the deepest first. It holds durable copies
of their scopes, so it stays valid after the activations are over; a scope that was gone already is
left out.
-/

namespace ScriptCore

/-- One activation: what ran, on which line, and in which scope. -/
structure TraceRecord where
  node : Node
  line : UInt32
  scope : Option DurableScope

/-- Activations, the deepest first. -/
abbrev Trace := List TraceRecord

namespace TraceRecord

def text (names : Interner) (r : TraceRecord) : String := r.node.location names r.line

def debug (names : Interner) (r : TraceRecord) : String := "FrameRecord(" ++ r.text names ++ ")"

end TraceRecord

namespace Trace

/-- One line for each activation. -/
def text (names : Interner) (t : Trace) : String :=
  String.intercalate "\n" (t.map fun r => "  at " ++ r.text names)

def debug (names : Interner) (t : Trace) : String :=
  Text.bracketed (t.map (TraceRecord.debug names))

end Trace

end ScriptCore
