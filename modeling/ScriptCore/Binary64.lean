/-!
# Inexact numbers as bit patterns

An inexact number is the 64 bits of its binary interchange form. Nothing here goes through machine
arithmetic: a finite number is `significand * 2 ^ exponent` with both read off the fields, a
quotient of naturals is rounded once by `ofRatio`, and every question about a number is answered in
exact natural arithmetic.
-/

namespace ScriptCore

/-- A 64-bit binary floating point number, given by its bits. -/
structure Binary64 where
  bits : UInt64
  deriving DecidableEq, Inhabited

namespace Binary64

def ofBits (n : Nat) : Binary64 := ⟨UInt64.ofNat n⟩

def fractionField (x : Binary64) : Nat := x.bits.toNat % Nat.pow 2 52

def exponentField (x : Binary64) : Nat := x.bits.toNat / Nat.pow 2 52 % Nat.pow 2 11

def isNegative (x : Binary64) : Bool := Nat.pow 2 63 ≤ x.bits.toNat

def isNaN (x : Binary64) : Bool := x.exponentField == 2047 && x.fractionField != 0

def isInfinite (x : Binary64) : Bool := x.exponentField == 2047 && x.fractionField == 0

/-- Either zero: only the sign bit may be set. -/
def isZero (x : Binary64) : Bool := x.bits.toNat % Nat.pow 2 63 == 0

/-- The integer factor of a finite number, hidden bit included. -/
def significand (x : Binary64) : Nat :=
  if x.exponentField = 0 then x.fractionField else Nat.pow 2 52 + x.fractionField

/-- The power of two that scales the significand of a finite number. -/
def exponent (x : Binary64) : Int :=
  if x.exponentField = 0 then -1074 else (x.exponentField : Int) - 1075

/-- Whether the gap below the number is half the gap above it: a significand that is a power of
two, above the smallest binade. -/
def gapNarrowsBelow (x : Binary64) : Bool := x.fractionField == 0 && 1 < x.exponentField

/-- Numeric equality: the two zeros are equal, and not-a-number is equal to nothing. -/
def equal (x y : Binary64) : Bool :=
  !x.isNaN && !y.isNaN && (x.bits == y.bits || (x.isZero && y.isZero))

def zero : Binary64 := ⟨0⟩

def one : Binary64 := ⟨0x3ff0000000000000⟩

def infinity : Binary64 := ⟨0x7ff0000000000000⟩

/-- The integer nearest to `num / den`; a tie goes to the even one. -/
def divNearestEven (num den : Nat) : Nat :=
  let q := num / den
  let r := num % den
  if 2 * r < den then q else if den < 2 * r then q + 1 else q + q % 2

/-- The binary exponent at which `num / den` has a 53-bit integer part, but not below the
smallest one the format has. -/
def ratioExponent (num den : Nat) : Int :=
  let e : Int := (num.log2 : Int) - den.log2 - 52
  let short := num * Nat.pow 2 (-e).toNat < den * Nat.pow 2 e.toNat * Nat.pow 2 52
  max (if short then e - 1 else e) (-1074)

/-- The number nearest to `num / den`; a tie goes to the even significand. The exponent field and
the fraction are added rather than joined, so a significand that rounds up to `2 ^ 53` carries into
the next binade by itself. -/
def ofRatio (num den : Nat) : Binary64 :=
  if num = 0 then zero
  else
    let e := ratioExponent num den
    let q := divNearestEven (num * Nat.pow 2 (-e).toNat) (den * Nat.pow 2 e.toNat)
    let word := (e + 1074).toNat * Nat.pow 2 52 + q
    if word < 2047 * Nat.pow 2 52 then ofBits word else infinity

/-- The product of a natural number and a finite non-negative number, rounded once. -/
def scale (n : Nat) (x : Binary64) : Binary64 :=
  ofRatio (n * x.significand * Nat.pow 2 x.exponent.toNat) (Nat.pow 2 (-x.exponent).toNat)

/-- The integer part of a finite non-negative number. -/
def floor (x : Binary64) : Nat :=
  x.significand * Nat.pow 2 x.exponent.toNat / Nat.pow 2 (-x.exponent).toNat

/-- Strictly between zero and one. -/
def isProperFraction (x : Binary64) : Bool :=
  !x.isNegative && !x.isZero && x.bits < one.bits

theorem equal_comm (x y : Binary64) : x.equal y = y.equal x := by
  unfold equal
  have h : (x.bits == y.bits) = (y.bits == x.bits) := Bool.beq_comm
  rw [h]
  cases x.isNaN <;> cases y.isNaN <;> cases x.isZero <;> cases y.isZero <;> simp

theorem not_equal_of_isNaN {x : Binary64} (h : x.isNaN = true) (y : Binary64) :
    x.equal y = false := by
  simp [equal, h]

end Binary64

end ScriptCore
