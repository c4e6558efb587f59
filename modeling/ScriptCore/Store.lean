import ScriptCore.Error

/-!
# Shared state

Everything that more than one scope, frame or thread can refer to, by position. Positions are handed
out in order and never taken back: functions, sources of mixed-in members, and the kind, shape and
enclosing scope of a heap scope stay what they were when made.
-/

namespace ScriptCore

/-- The position of a termination flag. -/
abbrev FlagId := Nat

structure Store where
  /-- The names that everybody's symbols are the ids of. -/
  names : Interner := .empty
  shapes : Shapes := #[]
  heaps : Array HeapScope := #[]
  globals : Array GlobalScope := #[]
  functions : Functions := #[]
  sources : Array MemberSource := #[]
  /-- Set once the thread of the frame that owns the flag was told to stop. -/
  flags : Array Bool := #[]
  /-- The shapes of each node. -/
  nodeShapes : Array ShapeSet := #[]

namespace Store

def addShape (st : Store) (s : Shape) : ShapeId × Store :=
  (st.shapes.size, { st with shapes := st.shapes.push s })

def addHeap (st : Store) (h : HeapScope) : HeapId × Store :=
  (st.heaps.size, { st with heaps := st.heaps.push h })

def addGlobal (st : Store) : GlobalId × Store :=
  (st.globals.size, { st with globals := st.globals.push {} })

def addFunction (st : Store) (f : Function) : FunctionId × Store :=
  (st.functions.size, { st with functions := st.functions.push f })

def addSource (st : Store) (s : MemberSource) : SourceId × Store :=
  (st.sources.size, { st with sources := st.sources.push s })

def addFlag (st : Store) (raised : Bool) : FlagId × Store :=
  (st.flags.size, { st with flags := st.flags.push raised })

def addNode (st : Store) : NodeId × Store :=
  (st.nodeShapes.size, { st with nodeShapes := st.nodeShapes.push .empty })

def isRaised (st : Store) (f : FlagId) : Bool := st.flags[f]?.getD false

def raiseFlag (st : Store) (f : FlagId) : Store :=
  { st with flags := st.flags.setIfInBounds f true }

def shapeSize (st : Store) (id : ShapeId) : Nat := (st.shapes[id]?.map Shape.size).getD 0

/-- The slot a shape gives to a symbol. -/
def slotOf? (st : Store) (id : ShapeId) (s : Symbol) : Option Nat :=
  st.shapes[id]?.bind (·.get? s)

/-- The slot a shape gives to a symbol, which becomes a member of the shape if it is none yet. -/
def createSlot (st : Store) (id : ShapeId) (s : Symbol) : Except ShapeFault Nat × Store :=
  match st.shapes[id]? with
  | none => (.error (.growthLimit 0), st)
  | some shape =>
    match shape.create s with
    | .error f => (.error f, st)
    | .ok (slot, shape) => (.ok slot, { st with shapes := st.shapes.setIfInBounds id shape })

/-- The shape a node shares among its activations, made when first asked for. -/
def nodeShape (st : Store) (n : NodeId) (v : Visibility) : ShapeId × Store :=
  let (id, set, shapes) := st.shapes.obtain (st.nodeShapes[n]?.getD .empty) v .empty
  (id, { st with shapes, nodeShapes := st.nodeShapes.setIfInBounds n set })

def isNodeShapeMade (st : Store) (n : NodeId) (v : Visibility) : Bool :=
  (st.nodeShapes[n]?.bind (·.get? v)).isSome

end Store

end ScriptCore
