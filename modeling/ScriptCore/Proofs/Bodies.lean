import ScriptCore.Program.Gate
import ScriptCore.Proofs.ListedNames

/-!
# Bodies

What a body does, as a tree: it asks for one thing and goes on as the answer
has it, until it finishes or fails. What it asks for is said in terms of a
`Platform`, which is whatever can run bodies; a session is one.

A body refers to scopes, slots and errors by how recently it came by them. So
it never sees what stands for a scope, and cannot tell one kept in the frame
from one kept on the heap. It hands everything it has on to the bodies it
starts, and they cannot hand anything back. So no body refers to the scope of a
call, or to a slot of it, once the call is over.
-/

namespace ScriptCore

/-- Something that works on a state to an outcome. -/
abbrev Proc (σ α : Type) := σ → Outcome α × σ

namespace Proc

variable {σ α β : Type}

def panic : Proc σ α := fun s => (.panicked, s)

def map (f : α → β) (x : Proc σ α) : Proc σ β := fun s =>
  match x s with
  | (r, s) => (r.map f, s)

/-- Goes on with what there is. To refer to what is not there is a panic. -/
def given (x : Option α) (f : α → Proc σ β) : Proc σ β :=
  match x with
  | some a => f a
  | none => panic

end Proc

/-- Who is asked for on the way outward. -/
inductive Question where
  | this
  | super
  | callee

/-- What can run bodies. Block scopes have a table of their own, a call is
given values. -/
structure Platform (σ Scope Slot : Type) where
  declare : Scope → Symbol → Attributes → Proc σ Slot
  resolve : Scope → Symbol → Proc σ Slot
  load : Slot → Proc σ Value
  assign : Slot → Value → Proc σ Unit
  mixin : Scope → MemberSource → Proc σ Unit
  symbols : Scope → Bool → Proc σ (List Symbol)
  answer : Question → Scope → Proc σ Value
  block : Scope → ShapeId → Proc σ Scope
  nodeShape : NodeId → Visibility → Proc σ ShapeId
  setLine : Option Scope → UInt32 → Proc σ Unit
  gate : Node → Scope → Proc σ Completion → Proc σ Completion
  /-- A call, given how nodes are evaluated. -/
  call : (Node → Scope → Proc σ Completion) → FunctionId → List Value → Option Value →
    Option Value → Proc σ Completion

/-- What a body can compose into a scope: a durable scope that it was given, or
members that it has itself. -/
inductive Source where
  | durable (i : Nat)
  | fixed (members : List (Symbol × Value))

/-- What a body asks for. Scopes, slots and durable scopes are numbers: how many
of their sort it came by since. -/
inductive Request where
  | declare (scope : Nat) (symbol : Symbol) (attributes : Attributes)
  | resolve (scope : Nat) (symbol : Symbol)
  | load (slot : Nat)
  | assign (slot : Nat) (value : Value)
  | mixin (scope : Nat) (source : Source)
  | symbols (scope : Nat) (includePrivate : Bool)
  | answer (question : Question) (scope : Nat)
  | block (scope : Nat) (shape : ShapeId)
  | nodeShape (node : NodeId) (visibility : Visibility)
  | setLine (scope : Option Nat) (line : UInt32)
  | eval (node : Node) (scope : Nat)
  | call (f : FunctionId) (arguments : List Value) (this super : Option Value)

/-- What a body is told. Of an error that is what kind it is, and from where it
has come, activation by activation. -/
inductive Told where
  | nothing
  | value (v : Value)
  | symbols (symbols : List Symbol)
  | shape (id : ShapeId)
  | completion (c : Completion)
  | failed (kind : ErrorKind) (places : Option (List (Node × UInt32)))

/-- What a body does. An error that it was told of can be passed on, with the
trace it has. -/
inductive Routine where
  | finish (c : Completion)
  | throw (kind : ErrorKind)
  | rethrow (error : Nat)
  | ask (request : Request) (next : Told → Routine)

/-- The node and the line of each activation of a trace. -/
def Trace.places (t : Trace) : List (Node × UInt32) := t.map fun r => (r.node, r.line)

def EvalError.places (e : EvalError) : Option (List (Node × UInt32)) := e.trace.map Trace.places

/-- What a body refers to, the newest first. -/
structure References (Scope Slot : Type) where
  scopes : List Scope := []
  slots : List Slot := []
  errors : List EvalError := []
  durables : List DurableScope := []

namespace References

variable {Scope Slot : Type}

def addScope (refs : References Scope Slot) (r : Scope) : References Scope Slot :=
  { refs with scopes := r :: refs.scopes }

def addSlot (refs : References Scope Slot) (slot : Slot) : References Scope Slot :=
  { refs with slots := slot :: refs.slots }

def addError (refs : References Scope Slot) (e : EvalError) : References Scope Slot :=
  { refs with errors := e :: refs.errors }

def source? (refs : References Scope Slot) : Source → Option MemberSource
  | .durable i => refs.durables[i]?.map .scope
  | .fixed members => some (.fixed members)

end References

section

variable {σ Scope Slot : Type} (P : Platform σ Scope Slot)
  (eval : References Scope Slot → Node → Scope → Proc σ Completion)

/-- Does what a body asks for, given how it evaluates nodes. -/
def Request.perform (refs : References Scope Slot) :
    Request → Proc σ (Told × References Scope Slot)
  | .declare i s a => .given refs.scopes[i]? fun r =>
    (P.declare r s a).map fun slot => (.nothing, refs.addSlot slot)
  | .resolve i s => .given refs.scopes[i]? fun r =>
    (P.resolve r s).map fun slot => (.nothing, refs.addSlot slot)
  | .load i => .given refs.slots[i]? fun slot => (P.load slot).map fun v => (.value v, refs)
  | .assign i v => .given refs.slots[i]? fun slot =>
    (P.assign slot v).map fun _ => (.nothing, refs)
  | .mixin i source => .given refs.scopes[i]? fun r => .given (refs.source? source) fun source =>
    (P.mixin r source).map fun _ => (.nothing, refs)
  | .symbols i includePrivate => .given refs.scopes[i]? fun r =>
    (P.symbols r includePrivate).map fun l => (.symbols l, refs)
  | .answer q i => .given refs.scopes[i]? fun r => (P.answer q r).map fun v => (.value v, refs)
  | .block i shape => .given refs.scopes[i]? fun r =>
    (P.block r shape).map fun scope => (.nothing, refs.addScope scope)
  | .nodeShape n v => (P.nodeShape n v).map fun id => (.shape id, refs)
  | .setLine none line => (P.setLine none line).map fun _ => (.nothing, refs)
  | .setLine (some i) line => .given refs.scopes[i]? fun r =>
    (P.setLine (some r) line).map fun _ => (.nothing, refs)
  | .eval node i => .given refs.scopes[i]? fun r =>
    (eval refs node r).map fun c => (.completion c, refs)
  | .call f arguments this super =>
    (P.call (eval refs) f arguments this super).map fun c => (.completion c, refs)

/-- Runs a body to its outcome. It is told of every error, and a panic ends it. -/
def Routine.run : Routine → References Scope Slot → Proc σ Completion
  | .finish c, _ => fun s => (.done c, s)
  | .throw kind, _ => fun s => (.raised kind, s)
  | .rethrow i, refs => .given refs.errors[i]? fun e s => (.raised e, s)
  | .ask request next, refs => fun s =>
    match request.perform P eval refs s with
    | (.done (answer, refs), s) => (next answer).run refs s
    | (.raised e, s) => (next (.failed e.kind e.places)).run (refs.addError e) s
    | (.panicked, s) => (.panicked, s)

end

/-- Evaluates nodes by what their bodies do, with at most `levels` activations
left below the limit. The scope of an activation is the newest it refers to. -/
def Platform.activate {σ Scope Slot : Type} (P : Platform σ Scope Slot)
    (program : Node → Routine) :
    (levels : Nat) → References Scope Slot → Node → Scope → Proc σ Completion
  | 0, _, node, scope => P.gate node scope .panic
  | levels + 1, refs, node, scope =>
    P.gate node scope
      ((program node).run P (P.activate program levels) (refs.addScope scope))

/-! ## Sessions -/

namespace Engine

def answer (e : Engine) : Question → ScopeRef → Except EvalError Value
  | .this, r => e.this r
  | .super, r => e.super r
  | .callee, r => e.callee r

/-- The listing of a scope has an end: nothing that is mixed into it is, further
in, mixed into itself. -/
def Listable (e : Engine) (r : ScopeRef) : Prop := ∀ id ∈ e.mixinsOf r, Acc e.store.Feeds id

open Classical in
/-- The listing of a scope. One without end exhausts the native stack. -/
noncomputable def list (e : Engine) (r : ScopeRef) (includePrivate : Bool) :
    Outcome (List Symbol) :=
  if e.Listable r then .ofExcept (e.symbols r includePrivate) else .panicked

/-- A block scope, unless there is no room for its members. -/
def block (e : Engine) (r : ScopeRef) (shape : ShapeId) : Outcome ScopeRef × Engine :=
  match e.frame.allocateBlock r shape (e.store.shapeSize shape) with
  | (some k, frame) => (.done (.pooled k), { e with frame })
  | (none, frame) => (.panicked, { e with frame })

end Engine

namespace Session

variable {α : Type}

/-- An operation of the engine. -/
def onEngine (f : Engine → Outcome α × Engine) : Proc Session α := fun s =>
  match f s.engine with
  | (r, engine) => (r, { s with engine })

/-- Calls a function with values, which are put into a table first. -/
def callWith (eval : Node → ScopeRef → Body) (f : FunctionId) (arguments : List Value)
    (this super : Option Value) : Body := fun s =>
  match s.engine.frame.allocateTable arguments.length with
  | (none, frame) => (.panicked, s.modifyFrame fun _ => frame)
  | (some table, frame) =>
    call eval f table this super
      (s.modifyFrame fun _ => frame.modifyTable table (·.pushAll arguments))

/-- A session runs bodies. -/
noncomputable def platform : Platform Session ScopeRef SlotRef where
  declare r s a := onEngine fun e => e.declare r s a
  resolve r s := onEngine fun e => (.ofExcept (e.resolve r s), e)
  load slot := onEngine fun e => (.ofExcept (e.load slot), e)
  assign slot v := onEngine fun e => e.assign slot v
  mixin r source := onEngine fun e =>
    match e.mixin r source with
    | (x, e) => (.ofExcept x, e)
  symbols r includePrivate := onEngine fun e => (e.list r includePrivate, e)
  answer q r := onEngine fun e => (.ofExcept (e.answer q r), e)
  block r shape := onEngine fun e => e.block r shape
  nodeShape n v := onEngine fun e =>
    match e.store.nodeShape n v with
    | (id, store) => (.done id, { e with store })
  setLine r line := onEngine fun e =>
    match e.setLine r line with
    | (x, e) => (.ofExcept x, e)
  gate := gate
  call := callWith

end Session

end ScriptCore
