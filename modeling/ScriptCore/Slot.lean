import ScriptCore.Value

/-!
# Slots and attributes

A slot is the storage of one member. It is undeclared until it has attributes, and name lookup does
not see an undeclared slot whatever it holds. A constant takes one value and is sealed by it;
declaring a slot again resets it.
-/

namespace ScriptCore

/-- What a declaration says about a member. -/
structure Attributes where
  isPrivate : Bool := false
  isProtected : Bool := false
  isPublic : Bool := false
  isConst : Bool := false
  isStatic : Bool := false
  deriving DecidableEq

namespace Attributes

/-- Reads the five flags, lowest bit first; higher bits mean nothing. -/
def ofBits (n : Nat) : Attributes where
  isPrivate := n.testBit 0
  isProtected := n.testBit 1
  isPublic := n.testBit 2
  isConst := n.testBit 3
  isStatic := n.testBit 4

def toBits (a : Attributes) : Nat :=
  a.isPrivate.toNat + 2 * a.isProtected.toNat + 4 * a.isPublic.toNat + 8 * a.isConst.toNat +
    16 * a.isStatic.toNat

/-- The names of the flags that are set, in bit order. -/
def names (a : Attributes) : List String :=
  [(a.isPrivate, "PRIVATE"), (a.isProtected, "PROTECTED"), (a.isPublic, "PUBLIC"),
   (a.isConst, "CONST"), (a.isStatic, "STATIC")].filterMap fun f => if f.1 then some f.2 else none

def debug (a : Attributes) : String :=
  "Attributes(" ++ (if a.names.isEmpty then "0x0" else String.intercalate " | " a.names) ++ ")"

/-- The attributes of a pushed argument. -/
def exposed : Attributes := { isPublic := true }

theorem ofBits_toBits (a : Attributes) : ofBits a.toBits = a := by
  rcases a with ⟨p, q, r, s, t⟩
  cases p <;> cases q <;> cases r <;> cases s <;> cases t <;> rfl

end Attributes

/-- Why a slot refused a value. -/
inductive AssignError where
  | isConst
  | isUndefined
  deriving DecidableEq

/-- The storage of one member; without attributes it is undeclared. -/
structure Slot where
  attributes : Option Attributes := none
  value : Value := .undefined
  isSealed : Bool := false
  deriving Inhabited

namespace Slot

def undeclared : Slot := {}

/-- A public slot that holds its value already. -/
def ofValue (v : Value) : Slot := { attributes := some .exposed, value := v }

/-- Declares the slot, dropping what it held. -/
def declare (_ : Slot) (a : Attributes) : Slot := { attributes := some a }

def isDeclared (s : Slot) : Bool := s.attributes.isSome

def isPublic (s : Slot) : Bool := s.attributes.any (·.isPublic)

def isConst (s : Slot) : Bool := s.attributes.any (·.isConst)

/-- Puts a value into the slot. The undefined value is no value, and a constant takes one only. -/
def assign (s : Slot) (v : Value) : Except AssignError Slot :=
  if v.isUndefined then .error .isUndefined
  else if s.isConst then
    if s.isSealed then .error .isConst else .ok { s with value := v, isSealed := true }
  else .ok { s with value := v }

/-- Same declaration, same seal and equal values. -/
def equal (a b : Slot) : Bool :=
  a.attributes == b.attributes && a.value.equal b.value && a.isSealed == b.isSealed

end Slot

end ScriptCore
