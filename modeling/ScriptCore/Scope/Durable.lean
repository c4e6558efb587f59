import ScriptCore.Store

/-!
# Durable scopes

Names are resolved innermost scope first, and in each scope its own members come before those mixed
into it. A member is its own if the shape knows the symbol and the slot there is declared; a shape
is shared, so the first without the second only means that some other activation declared it.
Through a mixin only public members are seen, and sources do not pass on what was mixed into them,
though they list it.

A heap scope encloses only scopes made after it, so a walk outward passes at most as many heap
scopes as there are, which bounds every recursion here.
-/

namespace ScriptCore

namespace Store

/-- The slot of a symbol among these slots, if it is declared there. -/
def ownIndex? (st : Store) (shape : ShapeId) (slots : Array Slot) (s : Symbol) : Option Nat :=
  (st.slotOf? shape s).filter fun i => slots[i]?.any Slot.isDeclared

/-- The value of a public member among these slots. -/
def publicValue? (st : Store) (shape : ShapeId) (slots : Array Slot) (s : Symbol) : Option Value :=
  (((st.slotOf? shape s).bind (slots[·]?)).filter Slot.isPublic).map Slot.value

/-- The declared symbols among these slots, in slot order, all of them or the public ones only. -/
def declaredSymbols (st : Store) (shape : ShapeId) (slots : Array Slot) (includePrivate : Bool) :
    List Symbol :=
  match st.shapes[shape]? with
  | none => []
  | some shape =>
    let found := shape.symbols.filterMap fun s =>
      (shape.get? s).bind fun i =>
        (slots[i]?.filter fun slot => slot.isDeclared && (includePrivate || slot.isPublic)).map
          fun _ => (i, s)
    (found.mergeSort fun a b => a.1 ≤ b.1).map (·.2)

/-! ## Sources of mixed-in members -/

/-- The value of a public member of the innermost scope of a chain. -/
def publicMember? (st : Store) (d : DurableScope) (s : Symbol) : Option Value :=
  match d.frozen, d.anchor with
  | f :: _, _ => st.publicValue? f.shape f.members.slots s
  | [], .heap id => st.heaps[id]?.bind fun h => st.publicValue? h.shape h.members.slots s
  | [], .global id =>
    ((st.globals[id]?.bind (·.get? s)).filter Slot.isPublic).map Slot.value

def sourceMember? (st : Store) (id : SourceId) (s : Symbol) : Option Value :=
  match st.sources[id]? with
  | some (.scope d) => st.publicMember? d s
  | some (.fixed ms) => (ms.find? fun m => m.1 = s).map (·.2)
  | none => none

/-- The first of these sources that has a public member of this name. -/
def findMixin? (st : Store) (mixins : List SourceId) (s : Symbol) : Option SourceId :=
  mixins.find? fun id => (st.sourceMember? id s).isSome

/-! ## Assignment -/

def setHeap (st : Store) (id : HeapId) (h : HeapScope) : Store :=
  { st with heaps := st.heaps.setIfInBounds id h }

def setGlobal (st : Store) (id : GlobalId) (g : GlobalScope) : Store :=
  { st with globals := st.globals.setIfInBounds id g }

/-- Assigns a global member, whatever its attributes allow others to see. -/
def assignGlobal (st : Store) (id : GlobalId) (s : Symbol) (v : Value) :
    Outcome Unit × Store :=
  match st.globals[id]? with
  | none => (.raised (ErrorKind.noSuchMember s), st)
  | some g =>
    match g.get? s with
    | none => (.raised (ErrorKind.noSuchMember s), st)
    | some slot =>
      match slot.assign v with
      | .error e => (.raised (ErrorKind.ofAssign s e), st)
      | .ok slot => (.done (), st.setGlobal id (g.set s slot))

/-- Assigns the slot of a heap scope at an index, materializing it if need be. -/
def assignHeap (st : Store) (id : HeapId) (i : Nat) (s : Symbol) (v : Value) :
    Outcome Unit × Store :=
  match st.heaps[id]? with
  | none => (.raised (ErrorKind.noSuchMember s), st)
  | some h =>
    if !h.members.fits (i + 1) then (.panicked, st)
    else
      let members := h.members.materialize i
      match (members.slotAt i).assign v with
      | .error e => (.raised (ErrorKind.ofAssign s e), st.setHeap id { h with members })
      | .ok slot => (.done (), st.setHeap id { h with members := members.setSlot i slot })

/-- Assigns a member of the innermost scope of a chain from outside. -/
def assignPublic (st : Store) (d : DurableScope) (s : Symbol) (v : Value) :
    Outcome Unit × Store :=
  match d.frozen, d.anchor with
  | _ :: _, _ => (.raised (ErrorKind.durableMutation (some s)), st)
  | [], .global id => st.assignGlobal id s v
  | [], .heap id =>
    match st.heaps[id]? with
    | none => (.raised (ErrorKind.noSuchMember s), st)
    | some h =>
      match (st.slotOf? h.shape s).bind fun i => (h.members.get? i).map fun slot => (i, slot) with
      | none => (.raised (ErrorKind.noSuchMember s), st)
      | some (i, slot) =>
        if slot.isPublic then
          match slot.assign v with
          | .error e => (.raised (ErrorKind.ofAssign s e), st)
          | .ok slot => (.done (), st.setHeap id { h with members := h.members.setSlot i slot })
        else (.raised (ErrorKind.noSuchMember s), st)

/-- Assigns a member of a source of mixed-in members. -/
def assignSource (st : Store) (id : SourceId) (s : Symbol) (v : Value) :
    Outcome Unit × Store :=
  match st.sources[id]? with
  | some (.scope d) => st.assignPublic d s v
  | _ => (.raised (ErrorKind.durableMutation (some s)), st)

/-! ## Resolution -/

/-- The member of this name in one frozen scope: its own, else a mixed-in one. -/
def findFrozen? (st : Store) (s : Symbol) (f : FrozenScope) : Option SlotRef :=
  match st.ownIndex? f.shape f.members.slots s with
  | some i => some (.frozen f i s)
  | none => (st.findMixin? f.mixins s).map (.mixin · s)

def findHeap? (st : Store) (id : HeapId) (h : HeapScope) (s : Symbol) : Option SlotRef :=
  match st.ownIndex? h.shape h.members.slots s with
  | some i => some (.heap id i s)
  | none => (st.findMixin? h.mixins s).map (.mixin · s)

def findGlobal? (st : Store) (id : GlobalId) (s : Symbol) : Option SlotRef :=
  st.globals[id]?.bind fun g =>
    match g.get? s with
    | some _ => some (.global id s)
    | none => (st.findMixin? g.mixins s).map (.mixin · s)

/-- Resolves a symbol outward, past at most `hops` heap scopes. -/
def resolveWithin (st : Store) (s : Symbol) (hops : Nat) (d : DurableScope) :
    Except EvalError SlotRef :=
  match d.frozen.findSome? (st.findFrozen? s) with
  | some slot => .ok slot
  | none =>
    match d.anchor with
    | .global id =>
      match st.findGlobal? id s with
      | some slot => .ok slot
      | none => .error (ErrorKind.noSuchMember s)
    | .heap id =>
      match hops, st.heaps[id]? with
      | hops + 1, some h =>
        match st.findHeap? id h s with
        | some slot => .ok slot
        | none => resolveWithin st s hops h.previous
      | _, _ => .error (ErrorKind.noSuchMember s)

/-- The member a symbol resolves to in a scope or one that encloses it. -/
def resolve (st : Store) (d : DurableScope) (s : Symbol) : Except EvalError SlotRef :=
  st.resolveWithin s st.heaps.size d

/-- The first answer `pick` gives for a scope on the way outward, past at most `hops` heap scopes.
A global scope has no kind and answers nothing. -/
def escalateWithin (st : Store) (pick : ScopeKind → Option Value) (missing : ErrorKind)
    (hops : Nat) (d : DurableScope) : Except EvalError Value :=
  match d.frozen.findSome? fun f => pick f.kind with
  | some v => .ok v
  | none =>
    match d.anchor with
    | .global _ => .error missing
    | .heap id =>
      match hops, st.heaps[id]? with
      | hops + 1, some h =>
        match pick h.kind with
        | some v => .ok v
        | none => escalateWithin st pick missing hops h.previous
      | _, _ => .error missing

def escalate (st : Store) (pick : ScopeKind → Option Value) (missing : ErrorKind)
    (d : DurableScope) : Except EvalError Value :=
  st.escalateWithin pick missing st.heaps.size d

/-! ## Listing -/

/-- The symbols a chain's innermost scope declares itself, and what is mixed into it. -/
def ownListing (st : Store) (includePrivate : Bool) (d : DurableScope) :
    List Symbol × List SourceId :=
  match d.frozen, d.anchor with
  | f :: _, _ => (st.declaredSymbols f.shape f.members.slots includePrivate, f.mixins)
  | [], .heap id =>
    match st.heaps[id]? with
    | some h => (st.declaredSymbols h.shape h.members.slots includePrivate, h.mixins)
    | none => ([], [])
  | [], .global id =>
    match st.globals[id]? with
    | some g => (g.symbols includePrivate, g.mixins)
    | none => ([], [])

/-- The symbols of a scope, then those of its mixins, mixins nested at most `depth` deep. -/
def symbolsWithin (st : Store) (includePrivate : Bool) (depth : Nat) (d : DurableScope) :
    List Symbol :=
  let (own, mixins) := st.ownListing includePrivate d
  match depth with
  | 0 => own
  | depth + 1 =>
    own ++ mixins.flatMap fun (id : SourceId) =>
      match st.sources[id]? with
      | some (.scope d) => symbolsWithin st includePrivate depth d
      | some (.fixed ms) => ms.map (·.1)
      | none => []

/-- The symbols declared in a scope, in slot order, then those of its mixins. A nesting of mixins
that is no cycle passes each source at most once. -/
def symbols (st : Store) (d : DurableScope) (includePrivate : Bool) : List Symbol :=
  st.symbolsWithin includePrivate st.sources.size d

/-- The symbols of a source of mixed-in members. -/
def sourceSymbols (st : Store) (includePrivate : Bool) (id : SourceId) : List Symbol :=
  match st.sources[id]? with
  | some (.scope d) => st.symbols d includePrivate
  | some (.fixed ms) => ms.map (·.1)
  | none => []

/-! ## Declaration, access, composition -/

/-- Declares a symbol in a scope. A constant is not declared again. -/
def declare (st : Store) (d : DurableScope) (s : Symbol) (a : Attributes) :
    Outcome SlotRef × Store :=
  match d.frozen, d.anchor with
  | _ :: _, _ => (.raised (ErrorKind.durableMutation (some s)), st)
  | [], .heap id =>
    match st.heaps[id]? with
    | none => (.raised (ErrorKind.noSuchMember s), st)
    | some h =>
      match st.createSlot h.shape s with
      | (.error _, st) => (.panicked, st)
      | (.ok i, st) =>
        if !h.members.fits (i + 1) then (.panicked, st)
        else
          let members := h.members.materialize i
          let slot := members.slotAt i
          if slot.isConst then
            (.raised (ErrorKind.duplicateDeclaration s), st.setHeap id { h with members })
          else
            (.done (.heap id i s),
              st.setHeap id { h with members := members.setSlot i (slot.declare a) })
  | [], .global id =>
    match st.globals[id]? with
    | none => (.raised (ErrorKind.noSuchMember s), st)
    | some g =>
      let slot := (g.get? s).getD .undeclared
      if slot.isConst then (.raised (ErrorKind.duplicateDeclaration s), st)
      else (.done (.global id s), st.setGlobal id (g.set s (slot.declare a)))

/-- Declares a public global member and gives it a value. The declaration stands even if the value
is refused. -/
def define (st : Store) (id : GlobalId) (s : Symbol) (v : Value) : Outcome Unit × Store :=
  match st.declare (.ofGlobal id) s .exposed with
  | (.done _, st) => st.assignGlobal id s v
  | (.raised e, st) => (.raised e, st)
  | (.panicked, st) => (.panicked, st)

/-- The value behind a durable slot; the undefined value if there is none any more. -/
def load (st : Store) : SlotRef → Value
  | .heap id i _ => ((st.heaps[id]?.bind (·.members.get? i)).map Slot.value).getD .undefined
  | .frozen f i _ => ((f.members.get? i).map Slot.value).getD .undefined
  | .global id s => ((st.globals[id]?.bind (·.get? s)).map Slot.value).getD .undefined
  | .mixin id s => (st.sourceMember? id s).getD .undefined
  | .pooled _ _ _ => .undefined

def assign (st : Store) (slot : SlotRef) (v : Value) : Outcome Unit × Store :=
  match slot with
  | .heap id i s => st.assignHeap id i s v
  | .frozen _ _ s => (.raised (ErrorKind.durableMutation (some s)), st)
  | .global id s => st.assignGlobal id s v
  | .mixin id s => st.assignSource id s v
  | .pooled _ _ _ => (.raised (ErrorKind.staleHandle .memberTable), st)

/-- Composes a source into a scope, behind the ones it has. -/
def mixin (st : Store) (d : DurableScope) (source : SourceId) : Except EvalError Store :=
  match d.frozen, d.anchor with
  | _ :: _, _ => .error (ErrorKind.durableMutation none)
  | [], .heap id =>
    match st.heaps[id]? with
    | some h => .ok (st.setHeap id { h with mixins := h.mixins ++ [source] })
    | none => .ok st
  | [], .global id =>
    match st.globals[id]? with
    | some g => .ok (st.setGlobal id { g with mixins := g.mixins ++ [source] })
    | none => .ok st

/-- The scope that encloses a scope; none for a global one. -/
def enclosing? (st : Store) (d : DurableScope) : Option DurableScope :=
  match d.frozen, d.anchor with
  | _ :: frozen, _ => some { d with frozen }
  | [], .heap id => st.heaps[id]?.map (·.previous)
  | [], .global _ => none

/-- The kind of a scope; none for a global one. -/
def kind? (st : Store) (d : DurableScope) : Option ScopeKind :=
  match d.frozen, d.anchor with
  | f :: _, _ => some f.kind
  | [], .heap id => st.heaps[id]?.map (·.kind)
  | [], .global _ => none

end Store

end ScriptCore
