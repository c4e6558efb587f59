import ScriptCore.Frame.Escape
import ScriptCore.Program.Reply
import ScriptCore.Scope.Text
import ScriptCore.Text.Basic
import ScriptCore.Threads

/-!
# Sessions

A session is everything a running program can change: the frame it works on with the shared state,
the frames of the threads, the registers and the log. An operation of a program either answers, or
stops for one of three reasons that are handled differently: a fault is logged and the program goes
on, an error can be caught, a panic unwinds to the outermost instruction. It resolves its operands
in order, works on the session, and answers; most also have a main result that the program may keep
in a register.
-/

namespace ScriptCore

/-- What a register holds. -/
inductive Register where
  | scope (s : ScopeRef)
  | slot (s : SlotRef)
  /-- A pooled table. Whoever takes it out of the register is its owner. -/
  | table (k : PoolKey)
  | owned (t : MemberTable)
  | members (m : FrozenMembers)
  | function (f : FunctionId)
  | value (v : Value)
  | shape (id : ShapeId)
  | error (e : EvalError)
  | trace (t : Trace)
  | handle (f : FlagId)

namespace Register

/-- A value, as a function if it is one. -/
def ofValue : Value → Register
  | .function f => .function f
  | v => .value v

end Register

/-- The instructions of a node. -/
structure Code where
  body : List Instr := []
  quiet : Bool := false

structure Session where
  engine : Engine
  threads : Threads := {}
  /-- The thread that runs, and the one that started it. -/
  thread : ThreadId := 0
  parent : Option ThreadId := none
  /-- The number the next thread gets. -/
  nextThread : ThreadId := 1
  registers : List (String × Register) := []
  log : Array LogEntry := #[]
  /-- The nodes of the running program by their keys. -/
  nodes : List (String × Node) := []
  /-- The instructions of all nodes, by id. -/
  code : Array Code := #[]

namespace Session

def register? (s : Session) (name : String) : Option Register := s.registers.lookup name

def eraseRegister (s : Session) (name : String) : Session :=
  { s with registers := s.registers.filter fun r => r.1 != name }

def setRegister (s : Session) (name : String) (r : Register) : Session :=
  { s with registers := (name, r) :: s.registers.filter fun r => r.1 != name }

def modifyFrame (s : Session) (f : Frame → Frame) : Session :=
  let ⟨⟨store, frame⟩, threads, thread, parent, nextThread, registers, log, nodes, code⟩ := s
  ⟨⟨store, f frame⟩, threads, thread, parent, nextThread, registers, log, nodes, code⟩

theorem modifyFrame_eq (s : Session) (f : Frame → Frame) :
    s.modifyFrame f = { s with engine := { s.engine with frame := f s.engine.frame } } := rfl

def append (s : Session) (e : LogEntry) : Session := { s with log := s.log.push e }

/-- Logs how an operation ended, with the state of the frame after it. -/
def note (s : Session) (word : Option String) (r : StepResult) : Session :=
  s.append (.step s.engine.frame.depth word r s.engine.frame.stats)

/-- What can be told of a scope. -/
def view (s : Session) : ScopeRef → ScopeView
  | .pooled k => .pooled k
  | .durable d =>
    match s.engine.store.kind? d with
    | none => .global
    | some kind => if d.isSnapshot then .snapshot kind else .heap kind

end Session

/-- Why an operation stopped. -/
inductive Stop where
  | bad (f : Fault)
  | raised (e : EvalError)
  | panicked

/-- An operation on a session that answers or stops. What it did before it stopped stays done. -/
abbrev Run (α : Type) := ExceptT Stop (StateM Session) α

namespace Run

variable {α : Type}

def bad (f : Fault) : Run α := throw (.bad f)

def raise (e : EvalError) : Run α := throw (.raised e)

def panic : Run α := throw .panicked

def ofField (x : Field α) : Run α :=
  match x with
  | .ok a => pure a
  | .error f => bad f

def orRaise (x : Except EvalError α) : Run α :=
  match x with
  | .ok a => pure a
  | .error e => raise e

def orPanic (x : Option α) : Run α :=
  match x with
  | some a => pure a
  | none => panic

def ofOutcome (x : Outcome α) : Run α :=
  match x with
  | .done a => pure a
  | .raised e => raise e
  | .panicked => panic

/-- Reads the engine. -/
def engine : Run Engine := return (← get).engine

def store : Run Store := return (← get).engine.store

def frame : Run Frame := return (← get).engine.frame

/-- Runs an operation of the engine. -/
def onEngine (f : Engine → α × Engine) : Run α :=
  modifyGet fun s =>
    let ⟨engine, threads, thread, parent, nextThread, registers, log, nodes, code⟩ := s
    let (a, engine) := f engine
    (a, ⟨engine, threads, thread, parent, nextThread, registers, log, nodes, code⟩)

/-- Runs an operation of the frame. -/
def onFrame (f : Frame → α × Frame) : Run α :=
  onEngine fun ⟨store, frame⟩ =>
    let (a, frame) := f frame
    (a, ⟨store, frame⟩)

/-- Runs an operation of the shared state. -/
def onStore (f : Store → α × Store) : Run α :=
  onEngine fun ⟨store, frame⟩ =>
    let (a, store) := f store
    (a, ⟨store, frame⟩)

/-! ## Operands -/

def register (name : Field String) : Run (String × Register) := do
  let name ← ofField name
  match (← get).register? name with
  | some r => return (name, r)
  | none => bad .register

def slotOperand (name : Field String) : Run SlotRef := do
  match ← register name with
  | (_, .slot s) => return s
  | _ => bad .register

def shapeOperand (name : Field String) : Run ShapeId := do
  match ← register name with
  | (_, .shape id) => return id
  | _ => bad .register

/-- A shape from a register, or a new one if none is named. -/
def shapeOrNew (name : Field (Option String)) : Run ShapeId := do
  match ← ofField name with
  | some name => shapeOperand (.ok name)
  | none => onStore fun st => st.addShape .empty

def functionOperand (name : Field String) : Run FunctionId := do
  match ← register name with
  | (_, .function f) => return f
  | _ => bad .register

def errorOperand (name : Field String) : Run EvalError := do
  match ← register name with
  | (_, .error e) => return e
  | _ => bad .register

def traceOperand (name : Field String) : Run Trace := do
  match ← register name with
  | (_, .trace t) => return t
  | _ => bad .register

def membersOperand (name : Field String) : Run FrozenMembers := do
  match ← register name with
  | (_, .members m) => return m
  | _ => bad .register

def ownedOperand (name : Field String) : Run MemberTable := do
  match ← register name with
  | (_, .owned t) => return t
  | _ => bad .register

def handleOperand (name : Field String) : Run FlagId := do
  match ← register name with
  | (_, .handle f) => return f
  | _ => bad .register

/-- Takes a pooled table out of its register. -/
def takeTableOperand (name : Field String) : Run PoolKey := do
  match ← register name with
  | (name, .table k) =>
    modify fun s => s.eraseRegister name
    return k
  | _ => bad .register

def nodeOperand (key : Field String) : Run Node := do
  let key ← ofField key
  match (← get).nodes.lookup key with
  | some n => return n
  | none => bad .node

/-- A scope, given the current one. -/
def scopeOperand (current : ScopeRef) (p : Field Place) : Run ScopeRef := do
  match ← ofField p with
  | .current => return current
  | .global => return (← frame).globalScope
  | .named name =>
    match ← register (.ok name) with
    | (_, .scope s) => return s
    | _ => bad .register

/-- A scope that must not be pooled. -/
def durableOperand (current : ScopeRef) (p : Field Place) : Run DurableScope := do
  match ← scopeOperand current p with
  | .durable d => return d
  | .pooled _ => bad .register

/-- A scope that must be a global one. -/
def globalOperand (current : ScopeRef) (p : Field Place) : Run GlobalId := do
  match ← durableOperand current p with
  | ⟨[], .global id⟩ => return id
  | _ => bad .register

end Run

namespace Expr

mutual

/-- The value of an expression in the current scope. -/
def eval (current : ScopeRef) : Expr → Run Value
  | .literal v => return v
  | .repeated text count => return .str (← Run.orPanic (Text.replicate? text count))
  | .register name => do
    match ← Run.register (.ok name) with
    | (_, .value v) => return v
    | (_, .function f) => return .function f
    | _ => Run.bad .register
  | .member s => do
    let s ← Run.ofField s
    let e ← Run.engine
    let slot ← Run.orRaise (e.resolve current s)
    Run.orRaise (e.load slot)
  | .sum terms => do
    let vs ← evalAll current terms
    return .int (vs.foldl (fun n v => n + (v.asInt?.getD 0)) 0)
  | .array items => return .array (← evalAll current items)
  | .fault f => Run.bad f

/-- The values of expressions, from left to right. -/
def evalAll (current : ScopeRef) : List Expr → Run (List Value)
  | [] => return []
  | x :: xs => do
    let v ← eval current x
    let vs ← evalAll current xs
    return v :: vs

end

/-- The value of an expression that may be absent. -/
def evalOption (current : ScopeRef) : Option Expr → Run (Option Value)
  | none => return none
  | some x => return some (← x.eval current)

end Expr

/-! ## Answers -/

/-- What an action answers, and what it offers for a register. -/
structure Answer where
  reply : Reply
  result : Option Register := none

namespace Answer

def optionalScope (view : ScopeRef → ScopeView) (s : Option ScopeRef) : Reply :=
  match s with
  | some s => .scope (view s)
  | none => .nothing

end Answer

end ScriptCore
