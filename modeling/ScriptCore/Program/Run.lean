import ScriptCore.Program.Action
import ScriptCore.Program.Gate

/-!
# Running programs

Instructions are run by recursion on their lists; evaluating a node runs a list that is not part of
the one being run, so that is left to a hook. The hook for one more activation is built from the
hook for one less, starting at the limit, where the gate refuses. A program therefore ends on its
own however its nodes call each other, and no measure beside the depth limit is needed.

Operations on threads are a second hook. A thread that runs on its own frame cannot borrow it again,
so these nest only as deep as threads start threads. A list that runs on a borrowed frame belongs to
the host, whoever asked for it, so it ends neither with an error nor with a panic.
-/

namespace ScriptCore

/-- Operations on threads, as a hook. -/
abbrev RegistryHook := RegistryInstr → Session → Session

/-- Carries out operations on threads, one after the other. -/
def RegistryHook.runAll (registry : RegistryHook) (ops : List RegistryInstr) (s : Session) :
    Session :=
  ops.foldl (fun s op => registry op s) s

/-- What instructions need from outside: evaluating nodes, and operations on threads. -/
structure Hooks where
  eval : Node → ScopeRef → Body
  registry : RegistryHook

/-- The list of instructions that runs: its scope, whether it belongs to the host, and whether it
leaves log entries. -/
structure Context where
  scope : ScopeRef
  top : Bool
  quiet : Bool := false

/-- How a list of instructions goes on. -/
inductive Flow where
  | next
  | finished (c : Completion)
  | raised (e : EvalError)
  | panicked

namespace Flow

/-- What a node makes of the end of its list: falling off the end is the null value. -/
def outcome : Flow → Outcome Completion
  | .next => .done (.normal .null)
  | .finished c => .done c
  | .raised e => .raised e
  | .panicked => .panicked

end Flow

/-- What an instruction answers, and the completion it ends its list with, if it does. -/
structure Step where
  answer : Answer
  finish : Option Completion := none

namespace Run

/-- Runs something on the session to an outcome. -/
def body {α : Type} (f : Session → Outcome α × Session) : Run α := do
  ofOutcome (← modifyGet f)

/-- Answers with a completion. Either it is passed on and ends the list, or its value is offered for
a register. -/
def answerCompletion (tag : Tag) (c : Completion) : Step :=
  if tag.pass then { answer := { reply := .completion c }, finish := some c }
  else { answer := { reply := .completion c, result := some (.ofValue c.value) } }

def ending (current : ScopeRef) : Ending → Run Completion
  | .normal v => return .normal (← v.eval current)
  | .returned v => return .returned (← v.eval current)
  | .broke => return .broke
  | .continued => return .continued

/-- What a list that was run inside an instruction means for it. -/
def inner (flow : Session → Flow × Session) (reply : Reply) : Run Step := do
  match ← modifyGet flow with
  | .next => return { answer := { reply } }
  | .finished c => return { answer := { reply := .completion c }, finish := some c }
  | .raised e => raise e
  | .panicked => panic

/-- The function a call is for. -/
def calleeOperand (current : ScopeRef) : Field String ⊕ Field Place → Run FunctionId
  | .inl name => functionOperand name
  | .inr place => do
    let scope ← scopeOperand current place
    match ← orRaise ((← engine).callee scope) with
    | .function f => return f
    | _ => bad .register

/-- The table of arguments of a call. -/
def argumentTable (current : ScopeRef) : Arguments → Run PoolKey
  | .table name => takeTableOperand name
  | .values items => do
    let vs ← Expr.evalAll current (← ofField items)
    let k ← orPanic (← onFrame fun f => f.allocateTable vs.length)
    onFrame fun f => (k, f.modifyTable k fun t => vs.foldl (fun t v => t.pushAll [v]) t)

def evalInstr (hooks : Hooks) (current : ScopeRef) (tag : Tag) (scope : Field Place)
    (node : Field String) : Run Step := do
  let scope ← scopeOperand current scope
  let node ← nodeOperand node
  return answerCompletion tag (← body (hooks.eval node scope))

def callInstr (hooks : Hooks) (current : ScopeRef) (tag : Tag)
    (callee : Field String ⊕ Field Place) (this super : Option Expr) (arguments : Arguments) :
    Run Step := do
  let f ← calleeOperand current callee
  let this ← Expr.evalOption current this
  let super ← Expr.evalOption current super
  let table ← argumentTable current arguments
  return answerCompletion tag (← body (Session.call hooks.eval f table this super))

def registryInstr (hooks : Hooks) (ops : List RegistryInstr) : Run Step := do
  modify (RegistryHook.runAll hooks.registry ops)
  return { answer := { reply := .nothing } }

end Run

/-- Ends an instruction: keeps its result, writes the log, and decides how the list goes on. A
fault is always logged, and goes no further. An error is caught by the register that is named for
it, or by the host; a panic is caught by the host alone. -/
def conclude (ctx : Context) (tag : Tag) (r : Except Stop Step) (s : Session) : Flow × Session :=
  let noted (s : Session) (x : StepResult) : Session := if ctx.quiet then s else s.note tag.word x
  match r with
  | .ok step =>
    let s :=
      match tag.into, step.answer.result with
      | some name, some r => s.setRegister name r
      | _, _ => s
    let s := noted s (.reply step.answer.reply)
    match step.finish with
    | some c => (.finished c, s)
    | none => (.next, s)
  | .error (.bad f) => (.next, s.note tag.word (.bad f))
  | .error (.raised e) =>
    let s := noted s (.failed e)
    match tag.catching with
    | some name => (.next, s.setRegister name (.error e))
    | none => (if ctx.top then .next else .raised e, s)
  | .error .panicked =>
    if ctx.top then (.next, noted s .panicked) else (.panicked, s)

/-- Repeats a list until it does not fall off its end, at most `n` times. -/
def Flow.repeat (list : Session → Flow × Session) : Nat → Session → Flow × Session
  | 0, s => (.next, s)
  | n + 1, s =>
    match list s with
    | (.next, s) => Flow.repeat list n s
    | r => r

mutual

/-- Runs one instruction. -/
def Instr.run (hooks : Hooks) (ctx : Context) : Instr → Session → Flow × Session
  | .act tag a, s =>
    let (r, s) := (do return { answer := ← Run.action ctx.scope a } : Run Step).run s
    conclude ctx tag r s
  | .finish tag e, s =>
    let (r, s) := (do
      let c ← Run.ending ctx.scope e
      return { answer := { reply := .completion c }, finish := some c } : Run Step).run s
    conclude ctx tag r s
  | .ite tag a b thenList elseList, s =>
    let (r, s) := (do
      let a ← a.eval ctx.scope
      let b ← b.eval ctx.scope
      let same := a.equal b
      Run.inner (if same then runList hooks ctx thenList else runList hooks ctx elseList)
        (.flag same) : Run Step).run s
    conclude ctx tag r s
  | .loop tag n list, s =>
    let (r, s) := (do
      let n ← Run.ofField n
      Run.inner (Flow.repeat (runList hooks ctx list) n) (.count n) : Run Step).run s
    conclude ctx tag r s
  | .eval tag scope node, s =>
    let (r, s) := (Run.evalInstr hooks ctx.scope tag scope node).run s
    conclude ctx tag r s
  | .call tag callee this super arguments, s =>
    let (r, s) := (Run.callInstr hooks ctx.scope tag callee this super arguments).run s
    conclude ctx tag r s
  | .registry tag ops, s =>
    let (r, s) := (Run.registryInstr hooks ops).run s
    conclude ctx tag r s

/-- Runs instructions until one ends the list. -/
def runList (hooks : Hooks) (ctx : Context) : List Instr → Session → Flow × Session
  | [], s => (.next, s)
  | i :: rest, s =>
    match i.run hooks ctx s with
    | (.next, s) => runList hooks ctx rest s
    | r => r

end

/-- Evaluates nodes with at most `levels` activations left below the limit. -/
def evalNode (registry : RegistryHook) : (levels : Nat) → Node → ScopeRef → Body
  | 0, node, scope => Session.gate node scope fun s => (.panicked, s)
  | levels + 1, node, scope =>
    Session.gate node scope fun s =>
      let code := s.code[node.id]?.getD {}
      let ctx : Context := { scope, top := false, quiet := code.quiet }
      let (flow, s) := runList { eval := evalNode registry levels, registry } ctx code.body s
      (flow.outcome, s)

/-- Runs the instructions of the host on the frame of the session, in its global scope. -/
def runOnFrame (registry : RegistryHook) (list : List Instr) (s : Session) : Session :=
  let f := s.engine.frame
  let levels := f.config.maxDepth - f.depth
  let ctx : Context := { scope := f.globalScope, top := true }
  (runList { eval := evalNode registry levels, registry } ctx list s).2

namespace Session

/-- Adds nodes: they get ids, shapes with their parameters, and names for the program. -/
def declareNodes (s : Session) : NodeDecls → Session
  | [] => s
  | (h, body) :: rest =>
    let (id, store) := s.engine.store.addNode
    let node : Node := { id, name := h.name, file := h.file }
    let store := h.params.foldl
      (fun st p =>
        let (shape, st) := st.nodeShape id .all
        (st.createSlot shape p).2)
      store
    declareNodes
      { s with
        engine := { s.engine with store }
        nodes := (h.key, node) :: s.nodes
        code := s.code.push { body, quiet := h.quiet } }
      rest

end Session

/-! ## Operations on threads -/

namespace Registry

/-- Logs the answer of an operation. -/
def answer (op : RegistryInstr) (r : RegistryReply) (s : Session) : Session :=
  s.append (.registry op.word r)

def removedFrame (st : Store) (f : Frame) : RemovedFrame where
  maxDepth := f.config.maxDepth
  isTerminated := st.isRaised f.flag
  depth := f.depth
  stats := f.stats

/-- What came back from the place of a thread's frame. -/
def answerRemoved (op : RegistryInstr) (s : Session)
    (r : Except EvalError (Option Frame × Threads)) : Session :=
  match r with
  | .error e => answer op (.failed e) s
  | .ok (previous, threads) =>
    answer op (.removed (previous.map (removedFrame s.engine.store))) { s with threads }

/-- A frame to install: on the shared global scope or on one of its own. -/
def newFrame (st : Store) (config : FrameConfig) (onProcessGlobal terminated : Bool) :
    Frame × Store :=
  let (flag, st) := st.addFlag terminated
  let (global, st) := if onProcessGlobal then (processGlobal, st) else st.addGlobal
  ({ config, global, flag }, st)

/-- Runs a list on the frame of the thread, which is lent out meanwhile. -/
def within (registry : RegistryHook) (op : RegistryInstr) (list : List Instr) (s : Session) :
    Session :=
  match s.threads.borrow s.engine.store s.thread with
  | .error e => answer op (.failed e) s
  | .ok (installed, threads, store) =>
    let outer := s.engine.frame
    let s := { s with engine := ⟨store, installed.frame⟩, threads }
    let s := runOnFrame registry list s
    let back : Installed := { installed with frame := s.engine.frame }
    answer op .ok
      { s with
        engine := { s.engine with frame := outer }
        threads := s.threads.giveBack s.thread back }

/-- Runs operations on a new thread with registers, nodes and a log of its own. -/
def peer (registry : RegistryHook) (op : RegistryInstr) (nodes : NodeDecls)
    (ops : List RegistryInstr) (s : Session) : Session :=
  let started : Session :=
    { s with
      thread := s.nextThread
      parent := some s.thread
      nextThread := s.nextThread + 1
      registers := []
      log := #[]
      nodes := [] }
  let ended := RegistryHook.runAll registry ops (started.declareNodes nodes)
  answer op (.log ended.log.toList)
    { s with
      engine := { s.engine with store := ended.engine.store }
      threads := ended.threads.finish ended.thread
      nextThread := ended.nextThread
      code := ended.code }

/-- Carries out one operation on threads, with threads nested at most `nesting` deep. -/
def perform : (nesting : Nat) → RegistryHook
  | nesting, op, s =>
    match op with
    | .within list =>
      match nesting with
      | 0 => answer op (.failed ErrorKind.frameBusy) s
      | nesting + 1 => within (perform nesting) op list s
    | .peer nodes ops =>
      match nesting with
      | 0 => answer op (.log []) s
      | nesting + 1 => peer (perform nesting) op nodes ops s
    | .install config onProcessGlobal terminated =>
      match config with
      | .error f => answer op (.bad f) s
      | .ok config =>
        let (f, store) := newFrame s.engine.store config onProcessGlobal terminated
        let s := { s with engine := { s.engine with store } }
        answerRemoved op s (s.threads.install s.thread f)
    | .remove => answerRemoved op s (s.threads.take s.thread)
    | .forget => answer op .nothing { s with threads := s.threads.forget }
    | .terminate =>
      let (found, store) := s.threads.terminate s.engine.store s.thread
      answer op (.flag found) { s with engine := { s.engine with store } }
    | .terminateParent =>
      match s.parent with
      | none => answer op .nothing s
      | some parent =>
        let (found, store) := s.threads.terminate s.engine.store parent
        answer op (.flag found) { s with engine := { s.engine with store } }
    | .registered =>
      answer op
        (.registered (s.threads.isRegistered s.thread) s.threads.registeredCount) s
    | .malformed _ f => answer op (.bad f) s

end Registry

/-! ## Whole programs -/

/-- A session with a frame on a global scope of its own, which is not the shared one, and the names
that were interned before. -/
def Session.start (names : Interner) (config : FrameConfig) : Session :=
  let (_, store) := ({ names } : Store).addGlobal
  let (global, store) := store.addGlobal
  let (flag, store) := store.addFlag false
  { engine := ⟨store, { config, global, flag }⟩ }

/-- A thread lends out its frame once, and each thread it starts may do so too. -/
def nesting (nodes : NodeDecls) (depth : Nat) : Nat :=
  2 * (max (nodesThreadDepth nodes) depth + 1)

/-- Runs a program on a fresh frame. -/
def runProgram (names : Interner) (config : FrameConfig) (nodes : NodeDecls)
    (list : List Instr) : Session :=
  let registry := Registry.perform (nesting nodes (listThreadDepth list))
  runOnFrame registry list ((Session.start names config).declareNodes nodes)

/-- Runs operations on threads on a fresh thread that has no frame. -/
def runRegistry (names : Interner) (nodes : NodeDecls) (ops : List RegistryInstr) : Session :=
  let registry := Registry.perform (nesting nodes (registryThreadDepth ops))
  RegistryHook.runAll registry ops ((Session.start names .default).declareNodes nodes)

end ScriptCore
