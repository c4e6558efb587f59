import ScriptCore.Slot

/-!
# Member tables

A member table is a growable row of slots: the storage of a scope, or the arguments of a call on the
way to becoming one. Its capacity is part of its state. Room is made only by `ensureCapacity`, which
at least doubles, so a table grows in powers of two from its least capacity on. How large a table
gets is bounded by what can be addressed: whoever makes room asks `fits` first, and a table that
does not fit stays as it is.
-/

namespace ScriptCore

structure MemberTable where
  slots : Array Slot := #[]
  minCapacity : Nat
  capacity : Nat := 0
  deriving Inhabited

namespace MemberTable

/-- The least capacity of a table that asks for none. -/
def defaultMinCapacity : Nat := 16

def withMinCapacity (n : Nat) : MemberTable := { minCapacity := max n 1 }

def empty : MemberTable := withMinCapacity defaultMinCapacity

def size (t : MemberTable) : Nat := t.slots.size

/-- Doubles `target` until it is at least `n`, at most `rounds` times. -/
def doubleUntil (n : Nat) : (rounds target : Nat) → Nat
  | 0, target => target
  | rounds + 1, target => if target < n then doubleUntil n rounds (2 * target) else target

/-- Makes room for `n` slots. -/
def ensureCapacity (t : MemberTable) (n : Nat) : MemberTable :=
  if n ≤ t.capacity then t
  else { t with capacity := doubleUntil n n (max (2 * t.capacity) t.minCapacity) }

/-- The most slots a table can have room for. A slot takes 32 bytes, and storage has less than
2^63 of them. -/
def maxCapacity : Nat := 288230376151711743

/-- Whether room for `n` slots can be made. -/
def fits (t : MemberTable) (n : Nat) : Bool := (t.ensureCapacity n).capacity ≤ maxCapacity

def get? (t : MemberTable) (i : Nat) : Option Slot := t.slots[i]?

/-- Extends the table with undeclared slots so that it has one at `i`. -/
def materialize (t : MemberTable) (i : Nat) : MemberTable :=
  if i < t.size then t
  else
    let t := t.ensureCapacity (i + 1)
    { t with slots := t.slots ++ Array.replicate (i + 1 - t.size) Slot.undeclared }

/-- The slot at `i` as it is in the materialized table. -/
def slotAt (t : MemberTable) (i : Nat) : Slot := (t.get? i).getD .undeclared

/-- Replaces the slot at `i`, if there is one. -/
def setSlot (t : MemberTable) (i : Nat) (s : Slot) : MemberTable :=
  { t with slots := t.slots.setIfInBounds i s }

/-- Appends public slots with these values, making room for all of them at once. -/
def pushAll (t : MemberTable) (vs : List Value) : MemberTable :=
  let t := t.ensureCapacity (t.size + vs.length)
  { t with slots := vs.foldl (fun slots v => slots.push (.ofValue v)) t.slots }

/-- Drops the slots and keeps the room. -/
def reset (t : MemberTable) : MemberTable := { t with slots := #[] }

/-- A copy that owns exactly the room it needs. -/
def clone (t : MemberTable) : MemberTable := { t with capacity := t.size }

def equalSlots : List Slot → List Slot → Bool
  | [], [] => true
  | a :: as, b :: bs => a.equal b && equalSlots as bs
  | _, _ => false

/-- Equal slots and the same least capacity; the room does not matter. -/
def equal (a b : MemberTable) : Bool :=
  equalSlots a.slots.toList b.slots.toList && a.minCapacity == b.minCapacity

end MemberTable

/-- An immutable copy of the slots of a table. -/
structure FrozenMembers where
  slots : Array Slot
  deriving Inhabited

namespace FrozenMembers

def size (m : FrozenMembers) : Nat := m.slots.size

def get? (m : FrozenMembers) (i : Nat) : Option Slot := m.slots[i]?

/-- The values as an array value. -/
def toArray (m : FrozenMembers) : Value := .array (m.slots.toList.map Slot.value)

def equal (a b : FrozenMembers) : Bool :=
  MemberTable.equalSlots a.slots.toList b.slots.toList

end FrozenMembers

namespace MemberTable

def freeze (t : MemberTable) : FrozenMembers := ⟨t.slots⟩

end MemberTable

end ScriptCore
