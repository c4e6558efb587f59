/-!
# Symbols

A symbol is the id of a name. Zero is no symbol, so that an id can be told from its absence; ids
below `firstInterned` are kept for names the host registers itself.
-/

namespace ScriptCore

/-- The id of a name: a 32-bit number other than zero. -/
structure Symbol where
  id : UInt32
  id_ne_zero : id ≠ 0
  deriving DecidableEq

namespace Symbol

/-- The first id that interning hands out. -/
def firstInterned : Nat := 500

/-- The first number that is too large for an id. -/
def idBound : Nat := 4294967296

def ofId? (id : UInt32) : Option Symbol :=
  if h : id ≠ 0 then some ⟨id, h⟩ else none

/-- The symbol with a given id, if the id is in range. -/
def ofNat? (n : Nat) : Option Symbol :=
  if n < idBound then ofId? (UInt32.ofNat n) else none

def toNat (s : Symbol) : Nat := s.id.toNat

/-- Kept for the host: never handed out by interning. -/
def isReserved (s : Symbol) : Bool := s.toNat < firstInterned

def display (s : Symbol) : String := "#" ++ toString s.toNat

def debug (s : Symbol) : String := "Symbol(" ++ toString s.toNat ++ ")"

/-- Ascending order of ids. -/
def le (a b : Symbol) : Bool := a.toNat ≤ b.toNat

theorem toNat_pos (s : Symbol) : 0 < s.toNat := by
  have h : s.id.toNat ≠ 0 := fun h => s.id_ne_zero (UInt32.toNat_inj.1 (by simpa using h))
  exact Nat.pos_of_ne_zero h

theorem toNat_lt (s : Symbol) : s.toNat < idBound := s.id.toNat_lt

theorem toNat_inj {a b : Symbol} : a.toNat = b.toNat ↔ a = b := by
  constructor
  · intro h
    cases a; cases b
    simp only [toNat] at h
    simpa using UInt32.toNat_inj.1 h
  · rintro rfl; rfl

theorem ofNat?_toNat (s : Symbol) : ofNat? s.toNat = some s := by
  have h : UInt32.ofNat s.toNat = s.id := UInt32.ofNat_toNat
  rw [ofNat?, if_pos (toNat_lt s)]
  simp [ofId?, h, s.id_ne_zero]

end Symbol

end ScriptCore
