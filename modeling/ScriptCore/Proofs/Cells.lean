import ScriptCore.Proofs.Beside
import ScriptCore.Proofs.Bodies

/-!
# Scopes without storage

A second platform for bodies, which says what they do and nothing about how.
The scopes that bodies make are cells: a kind, a shape, slots and mixins. A
cell stays what it is wherever a frame would have put it, no table is handed
out or taken back, and a function runs the same whether it encloses others or
not. Of the frame nothing is left but which activations there are and on which
lines.

What lies outside, global scopes and the heap scopes there were, is the store's
as ever. A place is a chain of cells in front of such a scope.
-/

namespace ScriptCore

/-- A cell stands for a scope of the frame that was there, by its key, or for
one made since. -/
inductive CellId where
  | pooled (key : PoolKey)
  | made (n : Nat)
  deriving DecidableEq

/-- A scope, without the scope that encloses it. -/
structure Cell where
  kind : ScopeKind
  shape : ShapeId
  slots : Array Slot := #[]
  mixins : List SourceId := []

/-- A scope with those around it: cells, innermost first, in front of a durable
scope. -/
structure Site where
  cells : List CellId := []
  base : DurableScope

/-- Where a member is: in a cell, or where the store has it. -/
inductive Spot where
  | cell (c : CellId) (index : Nat) (symbol : Symbol)
  | shared (slot : SlotRef)

/-- What stays the same of a frame: how it was set up, and how many heap scopes
there were at first. -/
structure Setting where
  config : FrameConfig
  global : GlobalId
  flag : FlagId
  heaps : Nat

/-- Whether a row can have `n` slots. -/
def Setting.room (S : Setting) (n : Nat) : Bool :=
  MemberTable.roomFor S.config.leastCapacity n

/-- The activations that run, the deepest first, each with its line. -/
abbrev Stack := List (Option Node × UInt32)

namespace Stack

def setLine (line : UInt32) : Stack → Stack
  | [] => []
  | (node, _) :: rest => (node, line) :: rest

theorem length_setLine (stack : Stack) (line : UInt32) :
    (stack.setLine line).length = stack.length := by
  cases stack <;> rfl

/-- The trace of it, without the scopes. -/
def trace (stack : Stack) : Trace :=
  stack.filterMap fun a => a.1.map fun node => { node, line := a.2, scope := none }

end Stack

structure World where
  store : Store
  cells : CellId → Option Cell
  /-- How many cells were made. -/
  made : Nat
  stack : Stack

namespace MemberTable

/-- A row of slots as a table. -/
def ofSlots (slots : Array Slot) : MemberTable := { slots, minCapacity := 0 }

variable {t t' : MemberTable}

theorem slots_materialize_congr (h : t.slots = t'.slots) (i : Nat) :
    (t.materialize i).slots = (t'.materialize i).slots := by
  have hsize : t.size = t'.size := congrArg Array.size h
  unfold materialize
  rw [hsize]
  split
  · exact h
  · simp only [slots_ensureCapacity, size, h]

/-- What declaring in a row does to its slots depends on them alone. -/
theorem declareAt_congr (h : t.slots = t'.slots) (i : Nat) (s : Symbol) (a : Attributes) :
    (t.declareAt i s a).1 = (t'.declareAt i s a).1 ∧
      (t.declareAt i s a).2.slots = (t'.declareAt i s a).2.slots := by
  have hrow := slots_materialize_congr h i
  have hslot : t.slotAt i = t'.slotAt i := by rw [slotAt, get?, h, slotAt, get?]
  unfold declareAt
  rw [hslot]
  split
  · exact ⟨rfl, hrow⟩
  · exact ⟨rfl, by simp only [setSlot, hrow]⟩

theorem assignAt_congr (h : t.slots = t'.slots) (i : Nat) (s : Symbol) (v : Value) :
    (t.assignAt i s v).1 = (t'.assignAt i s v).1 ∧
      (t.assignAt i s v).2.slots = (t'.assignAt i s v).2.slots := by
  have hrow := slots_materialize_congr h i
  have hslot : t.slotAt i = t'.slotAt i := by rw [slotAt, get?, h, slotAt, get?]
  unfold assignAt
  rw [hslot]
  split
  · exact ⟨rfl, hrow⟩
  · exact ⟨rfl, by simp only [setSlot, hrow]⟩

end MemberTable

/-- What is asked of the kind of a scope. -/
def Question.pick (fs : Functions) : Question → ScopeKind → Option Value
  | .this => ScopeKind.this?
  | .super => ScopeKind.super? fs
  | .callee => ScopeKind.callee?

def Question.missing : Question → ErrorKind
  | .this => .noThis
  | .super => .noSuper
  | .callee => .noCallee

theorem Engine.answer_eq (e : Engine) (q : Question) (r : ScopeRef) :
    e.answer q r = e.escalate (q.pick e.store.functions) q.missing r := by
  cases q <;> rfl

namespace World

def setCell (w : World) (c : CellId) (cell : Cell) : World :=
  { w with cells := Function.update w.cells c (some cell) }

/-- The member of this name in one cell: its own, else a mixed-in one. -/
def find? (w : World) (s : Symbol) (c : CellId) : Option Spot :=
  (w.cells c).bind fun cell =>
    match w.store.ownIndex? cell.shape cell.slots s with
    | some i => some (.cell c i s)
    | none => (w.store.findMixin? cell.mixins s).map fun id => .shared (.mixin id s)

def resolve (w : World) (p : Site) (s : Symbol) : Except EvalError Spot :=
  match p.cells.findSome? (w.find? s) with
  | some spot => .ok spot
  | none => (w.store.resolve p.base s).map .shared

def load (w : World) : Spot → Value
  | .cell c i _ => (((w.cells c).bind (·.slots[i]?)).map Slot.value).getD .undefined
  | .shared slot => w.store.load slot

def declare (S : Setting) (p : Site) (s : Symbol) (a : Attributes) : Proc World Spot := fun w =>
  match p.cells with
  | [] =>
    match w.store.declare p.base s a with
    | (r, store) => (r.map .shared, { w with store })
  | c :: _ =>
    match w.cells c with
    | none => (.panicked, w)
    | some cell =>
      match w.store.createSlot cell.shape s with
      | (.error _, store) => (.panicked, { w with store })
      | (.ok i, store) =>
        if S.room (i + 1) then
          match (MemberTable.ofSlots cell.slots).declareAt i s a with
          | (r, t) =>
            (.ofExcept (r.map fun _ => .cell c i s),
              { w with store }.setCell c { cell with slots := t.slots })
        else (.panicked, { w with store })

def assign (S : Setting) (spot : Spot) (v : Value) : Proc World Unit := fun w =>
  match spot with
  | .shared slot =>
    match w.store.assign slot v with
    | (r, store) => (r, { w with store })
  | .cell c i s =>
    match w.cells c with
    | none => (.panicked, w)
    | some cell =>
      if S.room (i + 1) then
        match (MemberTable.ofSlots cell.slots).assignAt i s v with
        | (r, t) => (.ofExcept r, w.setCell c { cell with slots := t.slots })
      else (.panicked, w)

def mixin (p : Site) (source : MemberSource) : Proc World Unit := fun w =>
  match p.cells with
  | [] =>
    match w.store.mixin p.base w.store.sources.size with
    | .error err => (.raised err, w)
    | .ok store => (.done (), { w with store := (store.addSource source).2 })
  | c :: _ =>
    match w.cells c with
    | none => (.panicked, w)
    | some cell =>
      match w.store.addSource source with
      | (id, store) =>
        (.done (), { w with store }.setCell c { cell with mixins := cell.mixins ++ [id] })

/-- The symbols declared in a scope itself, and what is mixed into it. -/
def ownListing (w : World) (p : Site) (includePrivate : Bool) : List Symbol × List SourceId :=
  match p.cells with
  | [] => w.store.ownListing includePrivate p.base
  | c :: _ =>
    match w.cells c with
    | none => ([], [])
    | some cell =>
      (w.store.declaredSymbols cell.shape cell.slots includePrivate, cell.mixins)

open Classical in
noncomputable def list (w : World) (p : Site) (includePrivate : Bool) : Outcome (List Symbol) :=
  let (own, mixins) := w.ownListing p includePrivate
  if ∀ id ∈ mixins, Acc w.store.Feeds id then
    .done (own ++ mixins.flatMap (w.store.sourceSymbols includePrivate))
  else .panicked

def answer (w : World) (q : Question) (p : Site) : Except EvalError Value :=
  let pick := q.pick w.store.functions
  match p.cells.findSome? fun c => (w.cells c).bind fun cell => pick cell.kind with
  | some v => .ok v
  | none => w.store.escalate pick q.missing p.base

/-- A new cell inside a place. -/
def add (w : World) (p : Site) (cell : Cell) : Site × World :=
  ({ p with cells := .made w.made :: p.cells },
    { w with made := w.made + 1 }.setCell (.made w.made) cell)

def block (S : Setting) (p : Site) (shape : ShapeId) : Proc World Site := fun w =>
  if S.room (w.store.shapeSize shape) then
    match w.add p { kind := .block, shape } with
    | (p, w) => (.done p, w)
  else (.panicked, w)

def setLine (S : Setting) (line : UInt32) : Proc World Unit := fun w =>
  if w.store.isRaised S.flag then (.raised ErrorKind.cancelled, w)
  else (.done (), { w with stack := w.stack.setLine line })

/-- The trace an error gets that has none yet. -/
def attach (w : World) (e : EvalError) : EvalError :=
  if e.needsTrace then e.withTrace w.stack.trace else e

def enter (w : World) (node : Node) : World := { w with stack := (some node, 0) :: w.stack }

def leave (w : World) : World := { w with stack := w.stack.tail }

def gate (S : Setting) (node : Node) (body : Proc World Completion) : Proc World Completion :=
  fun w =>
    let depth := w.stack.length
    let limit := S.config.maxDepth
    if limit ≤ depth then (.raised (ErrorKind.stackOverflow (depth + 1) limit), w)
    else
      match (if S.config.isServable then body else .panic) (w.enter node) with
      | (.raised e, w) => (.raised (w.attach e), w.leave)
      | (r, w) => (r, w.leave)

/-- A call runs the body in a cell whose slots are the arguments. -/
def call (S : Setting) (eval : Node → Site → Proc World Completion) (f : FunctionId)
    (slots : Array Slot) (this super : Option Value) : Proc World Completion := fun w =>
  match w.store.functions[f]? with
  | none => (.panicked, w)
  | some function =>
    match w.store.nodeShape function.body.id .all with
    | (shape, store) =>
      let base := function.closure.getD (.ofGlobal S.global)
      match { w with store }.add { base } { kind := .function ⟨f, this, super⟩, shape, slots } with
      | (p, w) => ((eval function.body p).map Completion.ofCall) w

def callWith (S : Setting) (eval : Node → Site → Proc World Completion) (f : FunctionId)
    (arguments : List Value) (this super : Option Value) : Proc World Completion := fun w =>
  if S.room arguments.length then
    w.call S eval f (arguments.map Slot.ofValue).toArray this super
  else (.panicked, w)

noncomputable def platform (S : Setting) : Platform World Site Spot where
  declare := declare S
  resolve p s w := (.ofExcept (w.resolve p s), w)
  load spot w := (.done (w.load spot), w)
  assign := assign S
  mixin := mixin
  symbols p includePrivate w := (w.list p includePrivate, w)
  answer q p w := (.ofExcept (w.answer q p), w)
  block := block S
  nodeShape n v w :=
    match w.store.nodeShape n v with
    | (id, store) => (.done id, { w with store })
  setLine _ := setLine S
  gate node _ := gate S node
  call := callWith S

end World

end ScriptCore
