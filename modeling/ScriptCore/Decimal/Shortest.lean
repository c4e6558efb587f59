import ScriptCore.Binary64

/-!
# The fewest decimal digits that read back

A finite positive number stands for the interval of reals that round to it. Among the decimals in
that interval one with the fewest digits is taken, and of those the nearest. The search tries one
digit, then two, and so on: on the grid of decimals with that many digits only the two neighbours
of the number can be the nearest hit, so each round is two comparisons of naturals. Seventeen digits
always suffice for the format.
-/

namespace ScriptCore

/-- The decimal `digits * 10 ^ exponent`. -/
structure Decimal where
  digits : Nat
  exponent : Int
  deriving DecidableEq

namespace Decimal

def digitText (n : Nat) : String := String.ofList (Nat.toDigits 10 n)

def digitCount (n : Nat) : Nat := (Nat.toDigits 10 n).length

/-- The exponent of the leading decimal digit of `num / den`, for a positive ratio. -/
def leadingExponent (num den : Nat) : Int :=
  if den ≤ num then (digitCount (num / den) : Int) - 1
  else -(digitCount ((den + num - 1) / num - 1) : Int)

/-- An interval around `value`, all three bounds over one denominator. The ends belong to it when
`closed` is set. -/
structure Interval where
  low : Nat
  value : Nat
  high : Nat
  denominator : Nat
  closed : Bool

namespace Interval

/-- The reals that round to `x`: half the gap to each neighbour, the ends included when the
significand is even, because a tie then rounds back to it. -/
def around (x : Binary64) : Interval where
  low := (4 * x.significand - if x.gapNarrowsBelow then 1 else 2) * Nat.pow 2 x.exponent.toNat
  value := 4 * x.significand * Nat.pow 2 x.exponent.toNat
  high := (4 * x.significand + 2) * Nat.pow 2 x.exponent.toNat
  denominator := 4 * Nat.pow 2 (-x.exponent).toNat
  closed := x.significand % 2 == 0

/-- Whether `n * 10 ^ p` lies in the interval. -/
def contains (i : Interval) (p : Int) (n : Nat) : Bool :=
  let up := Nat.pow 10 (-p).toNat
  let point := n * (i.denominator * Nat.pow 10 p.toNat)
  if i.closed then i.low * up ≤ point && point ≤ i.high * up
  else i.low * up < point && point < i.high * up

/-- The multiple of `10 ^ p` in the interval nearest to its value; a tie goes up. -/
def nearestOn? (i : Interval) (p : Int) : Option Nat :=
  let num := i.value * Nat.pow 10 (-p).toNat
  let den := i.denominator * Nat.pow 10 p.toNat
  let down := num / den
  match i.contains p down, i.contains p (down + 1) with
  | true, true => some (if 2 * (num % den) < den then down else down + 1)
  | true, false => some down
  | false, true => some (down + 1)
  | false, false => none

/-- Tries the grid of step `10 ^ p`, then finer ones, for at most `rounds` rounds. -/
def search (i : Interval) : Nat → Int → Decimal
  | 0, p => ⟨i.value * Nat.pow 10 (-p).toNat / (i.denominator * Nat.pow 10 p.toNat), p⟩
  | rounds + 1, p =>
    match i.nearestOn? p with
    | some n => ⟨n, p⟩
    | none => search i rounds (p - 1)

end Interval

/-- Drops trailing zeros, at most `rounds` of them. -/
def trim : Nat → Decimal → Decimal
  | 0, d => d
  | rounds + 1, d =>
    if d.digits % 10 = 0 then trim rounds ⟨d.digits / 10, d.exponent + 1⟩ else d

/-- The shortest decimal that reads back as `x`, for a finite number other than zero. -/
def shortest (x : Binary64) : Decimal :=
  let i := Interval.around x
  let d := i.search 17 (leadingExponent i.value i.denominator)
  trim (digitCount d.digits) d

end Decimal

end ScriptCore
