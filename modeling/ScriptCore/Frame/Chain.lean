import ScriptCore.Frame.Basic
import ScriptCore.Scope.Durable

/-!
# Chains that start in a frame

A chain may begin with pooled scopes. They are reached through the frame, and each step checks its
key; once the chain is durable it never leads back into the frame. A pooled scope only encloses
scopes allocated after it, so a walk passes each entry of the pool at most once, and the number of
entries bounds it.
-/

namespace ScriptCore

/-- A frame together with the shared state it works on. -/
structure Engine where
  store : Store
  frame : Frame

namespace Engine

/-! ## Resolution -/

/-- The index of a symbol among the declared slots of a pooled scope. -/
def ownIndex? (e : Engine) (own : PooledScope) (s : Symbol) : Except EvalError (Option Nat) :=
  match e.store.slotOf? own.shape s with
  | none => .ok none
  | some i =>
    match e.frame.getTable own.members with
    | .error err => .error err
    | .ok table => .ok (if (table.get? i).any Slot.isDeclared then some i else none)

/-- Resolves a symbol outward, past at most `hops` pooled scopes. -/
def resolveWithin (e : Engine) (s : Symbol) : Nat → ScopeRef → Except EvalError SlotRef
  | _, .durable d => e.store.resolve d s
  | 0, .pooled _ => .error (ErrorKind.staleHandle .scope)
  | hops + 1, .pooled k =>
    match e.frame.getScope k with
    | .error err => .error err
    | .ok own =>
      match e.ownIndex? own s with
      | .error err => .error err
      | .ok (some i) => .ok (.pooled own.members i s)
      | .ok none =>
        match e.store.findMixin? own.mixins s with
        | some source => .ok (.mixin source s)
        | none => resolveWithin e s hops own.previous

/-- The member a symbol resolves to: own members first, then mixins, then the enclosing scope. -/
def resolve (e : Engine) (scope : ScopeRef) (s : Symbol) : Except EvalError SlotRef :=
  e.resolveWithin s e.frame.scopes.entries.size scope

/-- The first answer `pick` gives on the way outward, past at most `hops` pooled scopes. -/
def escalateWithin (e : Engine) (pick : ScopeKind → Option Value) (missing : ErrorKind) :
    Nat → ScopeRef → Except EvalError Value
  | _, .durable d => e.store.escalate pick missing d
  | 0, .pooled _ => .error (ErrorKind.staleHandle .scope)
  | hops + 1, .pooled k =>
    match e.frame.getScope k with
    | .error err => .error err
    | .ok own =>
      match pick own.kind with
      | some v => .ok v
      | none => escalateWithin e pick missing hops own.previous

def escalate (e : Engine) (pick : ScopeKind → Option Value) (missing : ErrorKind)
    (scope : ScopeRef) : Except EvalError Value :=
  e.escalateWithin pick missing e.frame.scopes.entries.size scope

/-- The receiver of the innermost activation that has one. -/
def this (e : Engine) (scope : ScopeRef) : Except EvalError Value :=
  e.escalate ScopeKind.this? .noThis scope

def super (e : Engine) (scope : ScopeRef) : Except EvalError Value :=
  e.escalate (ScopeKind.super? e.store.functions) .noSuper scope

/-- The function whose activation encloses a scope. -/
def callee (e : Engine) (scope : ScopeRef) : Except EvalError Value :=
  e.escalate ScopeKind.callee? .noCallee scope

/-! ## Members -/

/-- Declares a symbol in a scope itself. A constant is not declared again. -/
def declare (e : Engine) (scope : ScopeRef) (s : Symbol) (a : Attributes) :
    Outcome SlotRef × Engine :=
  match scope with
  | .durable d =>
    let ⟨store, frame⟩ := e
    let (r, store) := store.declare d s a
    (r, ⟨store, frame⟩)
  | .pooled k =>
    match e.frame.getScope k with
    | .error err => (.raised err, e)
    | .ok own =>
      let ⟨store, frame⟩ := e
      match store.createSlot own.shape s with
      | (.error _, store) => (.panicked, ⟨store, frame⟩)
      | (.ok i, store) =>
        match frame.getTable own.members with
        | .error err => (.raised err, ⟨store, frame⟩)
        | .ok table =>
          if !table.fits (i + 1) then (.panicked, ⟨store, frame⟩)
          else if (table.slotAt i).isConst then
            (.raised (ErrorKind.duplicateDeclaration s),
              ⟨store, frame.modifyTable own.members (·.materialize i)⟩)
          else
            (.done (.pooled own.members i s),
              ⟨store, frame.modifyTable own.members fun t =>
                let t := t.materialize i
                t.setSlot i ((t.slotAt i).declare a)⟩)

/-- The value behind a slot. -/
def load (e : Engine) : SlotRef → Except EvalError Value
  | .pooled k i _ =>
    match e.frame.getTable k with
    | .error err => .error err
    | .ok table => .ok (((table.get? i).map Slot.value).getD .undefined)
  | slot => .ok (e.store.load slot)

/-- Assigns through a slot. -/
def assign (e : Engine) (slot : SlotRef) (v : Value) : Outcome Unit × Engine :=
  match slot with
  | .pooled k i s =>
    match e.frame.getTable k with
    | .error err => (.raised err, e)
    | .ok table =>
      let ⟨store, frame⟩ := e
      if !table.fits (i + 1) then (.panicked, ⟨store, frame⟩)
      else
        match (table.slotAt i).assign v with
        | .error err =>
          (.raised (ErrorKind.ofAssign s err), ⟨store, frame.modifyTable k (·.materialize i)⟩)
        | .ok slot =>
          (.done (), ⟨store, frame.modifyTable k fun t => (t.materialize i).setSlot i slot⟩)
  | slot =>
    let ⟨store, frame⟩ := e
    let (r, store) := store.assign slot v
    (r, ⟨store, frame⟩)

/-- Composes a source into a scope, behind the ones it has. -/
def mixin (e : Engine) (scope : ScopeRef) (source : MemberSource) :
    Except EvalError Unit × Engine :=
  match scope with
  | .durable d =>
    match e.store.mixin d e.store.sources.size with
    | .error err => (.error err, e)
    | .ok store => (.ok (), ⟨(store.addSource source).2, e.frame⟩)
  | .pooled k =>
    match e.frame.getScope k with
    | .error err => (.error err, e)
    | .ok _ =>
      let ⟨store, frame⟩ := e
      let (id, store) := store.addSource source
      let scopes := frame.scopes.modify k fun s =>
        s.map fun own => { own with mixins := own.mixins ++ [id] }
      (.ok (), ⟨store, { frame with scopes }⟩)

/-- The symbols declared in a scope itself, in slot order, then those of its mixins. -/
def symbols (e : Engine) (scope : ScopeRef) (includePrivate : Bool) :
    Except EvalError (List Symbol) :=
  match scope with
  | .durable d => .ok (e.store.symbols d includePrivate)
  | .pooled k => do
    let own ← e.frame.getScope k
    let table ← e.frame.getTable own.members
    return e.store.declaredSymbols own.shape table.slots includePrivate ++
      own.mixins.flatMap (e.store.sourceSymbols includePrivate)

/-- The slots of a pooled scope. -/
def scopeTable (e : Engine) (k : PoolKey) : Except EvalError MemberTable := do
  let own ← e.frame.getScope k
  e.frame.getTable own.members

/-! ## Lines -/

def isTerminated (e : Engine) : Bool := e.store.isRaised e.frame.flag

/-- Records the line, and the scope if one is given. A terminated thread stops here. -/
def setLine (e : Engine) (scope : Option ScopeRef) (line : UInt32) :
    Except EvalError Unit × Engine :=
  if e.isTerminated then (.error ErrorKind.cancelled, e)
  else
    let ⟨store, frame⟩ := e
    match scope with
    | some scope => (.ok (), ⟨store, frame.setLineIn scope line⟩)
    | none => (.ok (), ⟨store, frame.setLine line⟩)

end Engine

end ScriptCore
