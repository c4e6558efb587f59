import ScriptCore.Program.Session

/-!
# Actions on member tables

A table in a register is owned by the register or lies in the pool of the frame. Most operations
work on either; those that give a pooled table away take it out of its register, also when they
fail. Asking for more room than can be had is a panic, and leaves the table as it was.
-/

namespace ScriptCore

namespace Perform

open Run

def allocateTable (size : Field Nat) : Run Answer := do
  let size ← ofField size
  let k ← orPanic (← onFrame fun f => f.allocateTable size)
  let t ← orRaise ((← frame).getTable k)
  return {
    reply := .many [.count k.index, .count k.generation.toNat, .table t]
    result := some (.table k) }

def ownTable (minCapacity : Field (Option Nat)) : Run Answer := do
  let t :=
    match ← ofField minCapacity with
    | some n => MemberTable.withMinCapacity n
    | none => MemberTable.empty
  return { reply := .table t, result := some (.owned t) }

def freeTable (table : Field String) : Run Answer := do
  let k ← takeTableOperand table
  return { reply := .flag (← onFrame fun f => f.freeTable k) }

def takeTable (table : Field String) : Run Answer := do
  let k ← takeTableOperand table
  let t ← orRaise (← onFrame fun f => f.takeTable k)
  return { reply := .table t, result := some (.owned t) }

/-- The table in a register, owned or pooled. -/
def tableOperand (table : Field String) : Run MemberTable := do
  match ← register table with
  | (_, .owned t) => return t
  | (_, .table k) => orRaise ((← frame).getTable k)
  | _ => bad .register

/-- Changes the table in a register. -/
def onTable {α : Type} (table : Field String) (f : MemberTable → α × MemberTable) : Run α := do
  match ← register table with
  | (name, .owned t) =>
    let (a, t) := f t
    modify fun s => s.setRegister name (.owned t)
    return a
  | (_, .table k) =>
    let t ← orRaise ((← frame).getTable k)
    let (a, t) := f t
    onFrame fun frame => ((), frame.modifyTable k fun _ => t)
    return a
  | _ => bad .register

/-- Changes the table in a register, which has to have room for as many slots as `needed` says. -/
def growTable {α : Type} (table : Field String) (needed : MemberTable → Nat)
    (f : MemberTable → α × MemberTable) : Run α := do
  let fits := (fun t => t.fits (needed t)) <$> tableOperand table
  if ← fits then onTable table f else panic

def room (t : MemberTable) : Reply := .many [.count t.size, .count t.capacity]

/-- Up to four values are pushed together, more of them one by one. -/
def pushValues (t : MemberTable) (vs : List Value) : MemberTable :=
  if vs.length ≤ 4 then if vs.isEmpty then t else t.pushAll vs
  else vs.foldl (fun t v => t.pushAll [v]) t

def pushAll (current : ScopeRef) (vs : Field (List Expr)) (table : Field String) : Run Answer := do
  let vs ← Expr.evalAll current (← ofField vs)
  let reply ← growTable table (fun t => t.size + vs.length) fun t =>
    let t := pushValues t vs
    (room t, t)
  return { reply }

def referenceSlot (i : Field Nat) (table : Field String) : Run Answer := do
  let i ← ofField i
  let reply ← growTable table (fun _ => i + 1) fun t =>
    let t := t.materialize i
    (.many [.slot (t.slotAt i), .count t.size, .count t.capacity], t)
  return { reply }

def optionalSlot (s : Option Slot) : Reply :=
  match s with
  | some s => .slot s
  | none => .nothing

def slotAt (i : Field Nat) (table : Field String) : Run Answer := do
  let i ← ofField i
  return { reply := optionalSlot ((← tableOperand table).get? i) }

def declareAt (i : Field Nat) (a : Field Attributes) (table : Field String) : Run Answer := do
  let i ← ofField i
  let a ← ofField a
  let reply ← growTable table (fun _ => i + 1) fun t =>
    let t := t.materialize i
    let slot := (t.slotAt i).declare a
    (.slot slot, t.setSlot i slot)
  return { reply }

def assignAt (current : ScopeRef) (i : Field Nat) (v : Expr) (table : Field String) :
    Run Answer := do
  let i ← ofField i
  let v ← v.eval current
  let reply ← onTable table fun t =>
    match t.get? i with
    | none => (.nothing, t)
    | some slot =>
      match slot.assign v with
      | .ok slot => (.ok, t.setSlot i slot)
      | .error e => (.assignError e, t)
  return { reply }

def clearAt (i : Field Nat) (table : Field String) : Run Answer := do
  let i ← ofField i
  return { reply := ← onTable table fun t => (.flag (t.get? i).isSome, t.setSlot i .undeclared) }

def ensureRoom (n : Field Nat) (table : Field String) : Run Answer := do
  let n ← ofField n
  let reply ← growTable table (fun _ => n) fun t =>
    let t := t.ensureCapacity n
    (room t, t)
  return { reply }

def resetTable (table : Field String) : Run Answer := do
  return { reply := ← onTable table fun t => let t := t.reset; (.table t, t) }

def inspectTable (table : Field String) : Run Answer := do
  return { reply := .table (← tableOperand table) }

def copyTable (table : Field String) : Run Answer := do
  let m := (← tableOperand table).freeze
  return { reply := .members m, result := some (.members m) }

def equalTables (x y : Field String) : Run Answer := do
  let x ← ownedOperand x
  let y ← ownedOperand y
  return { reply := .flag (x.equal y) }

def memberAt (members : Field String) (i : Field Nat) : Run Answer := do
  let m ← membersOperand members
  let i ← ofField i
  return { reply := optionalSlot (m.get? i) }

def memberArray (members : Field String) : Run Answer := do
  let v := (← membersOperand members).toArray
  return { reply := .shown v, result := some (.value v) }

def equalMembers (x y : Field String) : Run Answer := do
  let x ← membersOperand x
  let y ← membersOperand y
  return { reply := .flag (x.equal y) }

end Perform

end ScriptCore
