import ScriptCore.Program.Session

/-!
# The call gate

Every activation passes the gate. It refuses one activation too many before anything changes; else
it runs the body one depth down and ends that depth whatever the outcome, so nothing the body
allocated survives it. A script error that has no trace yet gets the trace of the stack as it is
right then, before the depth ends. An activation that cannot be given its stack is a panic of the
body.

A function call builds the scope of the call from the table of arguments. The scope is pooled and
released after the body, unless the body makes functions of its own: then the arguments are copied
to a heap scope, which those functions keep.
-/

namespace ScriptCore

/-- Something that runs on a session to an outcome. -/
abbrev Body := Session → Outcome Completion × Session

namespace Session

/-- Evaluates a node through the gate, given what its body does. -/
def gate (node : Node) (scope : ScopeRef) (body : Body) : Body := fun s =>
  let depth := s.engine.frame.depth
  let limit := s.engine.frame.config.maxDepth
  if limit ≤ depth then (.raised (ErrorKind.stackOverflow (depth + 1) limit), s)
  else
    let config := s.engine.frame.config
    let s := s.modifyFrame fun f => f.enter node scope
    let body := if config.isServable then body else fun s => (.panicked, s)
    match config.budget.run (depth + 1) fun _ => body s with
    | (.raised e, s) =>
      let e := if e.needsTrace then e.withTrace s.engine.trace else e
      (.raised e, s.modifyFrame Frame.leave)
    | (r, s) => (r, s.modifyFrame Frame.leave)

/-- The scope of a call on the heap. -/
def heapCallScope (s : Session) (binding : FunctionBinding) (previous : DurableScope)
    (shape : ShapeId) (table : PoolKey) : Except EvalError ScopeRef × Session :=
  let ⟨⟨store, frame⟩, threads, thread, parent, nextThread, registers, log, nodes, code⟩ := s
  let (taken, frame) := frame.takeTable table
  match taken with
  | .error e =>
    (.error e,
      ⟨⟨store, frame⟩, threads, thread, parent, nextThread, registers, log, nodes, code⟩)
  | .ok members =>
    let (id, store) := store.addHeap { kind := .function binding, previous, shape, members }
    (.ok (.durable (.ofHeap id)),
      ⟨⟨store, frame⟩, threads, thread, parent, nextThread, registers, log, nodes, code⟩)

/-- The scope of a call in the pool. -/
def pooledCallScope (s : Session) (binding : FunctionBinding) (previous : DurableScope)
    (shape : ShapeId) (table : PoolKey) : Outcome ScopeRef × Session :=
  let ⟨⟨store, frame⟩, threads, thread, parent, nextThread, registers, log, nodes, code⟩ := s
  let (r, frame) :=
    frame.allocateFunction binding (.durable previous) shape (store.shapeSize shape) table
  (r.map .pooled,
    ⟨⟨store, frame⟩, threads, thread, parent, nextThread, registers, log, nodes, code⟩)

/-- The shape all activations of a node share. -/
def nodeShape (s : Session) (node : Node) : ShapeId × Session :=
  let ⟨⟨store, frame⟩, threads, thread, parent, nextThread, registers, log, nodes, code⟩ := s
  let (shape, store) := store.nodeShape node.id .all
  (shape, ⟨⟨store, frame⟩, threads, thread, parent, nextThread, registers, log, nodes, code⟩)

/-- Calls a function with a table of arguments, given how nodes are evaluated. A panic in the body
of a pooled call skips the release of its scope. -/
def call (eval : Node → ScopeRef → Body) (f : FunctionId) (table : PoolKey)
    (this super : Option Value) : Body := fun s =>
  match s.engine.store.functions[f]? with
  | none => (.panicked, s)
  | some function =>
    let (shape, s) := s.nodeShape function.body
    let previous := function.closure.getD (.ofGlobal s.engine.frame.global)
    let binding : FunctionBinding := ⟨f, this, super⟩
    if function.enclosesFunctions then
      match s.heapCallScope binding previous shape table with
      | (.error e, s) => (.raised e, s)
      | (.ok scope, s) =>
        let (r, s) := eval function.body scope s
        (r.map Completion.ofCall, s)
    else
      match s.pooledCallScope binding previous shape table with
      | (.raised e, s) => (.raised e, s)
      | (.panicked, s) => (.panicked, s)
      | (.done scope, s) =>
        match eval function.body scope s with
        | (.panicked, s) => (.panicked, s)
        | (r, s) => (r.map Completion.ofCall, s.modifyFrame fun f => (f.freeScope scope).2)

end Session

end ScriptCore
