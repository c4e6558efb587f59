import ScriptCore.Decimal.Shortest

/-!
# How inexact numbers are written

The digits are always the shortest ones; a `Layout` only decides where the point goes. Plain text
never uses an exponent. The compact form switches to one below `10 ^ -4` and from `10 ^ 16` on, and
marks whole numbers with a fractional zero.
-/

namespace ScriptCore

/-- Choices of a number format: the range of leading exponents written positionally (`none` for
all of them), and what follows a whole number. -/
structure Layout where
  positional : Option (Int × Int)
  wholeMark : String

namespace Layout

/-- Every number is written positionally, whole numbers without a point. -/
def plain : Layout := ⟨none, ""⟩

/-- Leading exponents -4 to 15 are positional, and whole numbers end in a fractional zero. -/
def compact : Layout := ⟨some (-4, 15), ".0"⟩

def zeros (n : Nat) : String := String.ofList (List.replicate n '0')

def positionalText (mark : String) (d : Decimal) : String :=
  let ds := Decimal.digitText d.digits
  let point : Int := ds.length + d.exponent
  if 0 ≤ d.exponent then ds ++ zeros d.exponent.toNat ++ mark
  else if 0 < point then
    String.ofList (ds.toList.take point.toNat) ++ "." ++ String.ofList (ds.toList.drop point.toNat)
  else "0." ++ zeros (-point).toNat ++ ds

def exponentText (d : Decimal) : String :=
  let ds := Decimal.digitText d.digits
  let tail := ds.toList.drop 1
  let mantissa := String.ofList (ds.toList.take 1) ++
    if tail.isEmpty then "" else "." ++ String.ofList tail
  mantissa ++ "e" ++ toString (ds.length + d.exponent - 1)

def decimalText (l : Layout) (d : Decimal) : String :=
  let leading : Int := Decimal.digitCount d.digits + d.exponent - 1
  match l.positional with
  | none => positionalText l.wholeMark d
  | some (least, most) =>
    if least ≤ leading && leading ≤ most then positionalText l.wholeMark d else exponentText d

end Layout

namespace Binary64

/-- The text of a number in a layout. Zeros and infinities carry a sign, not-a-number does not. -/
def text (l : Layout) (x : Binary64) : String :=
  if x.isNaN then "NaN"
  else
    let sign := if x.isNegative then "-" else ""
    if x.isInfinite then sign ++ "inf"
    else if x.isZero then sign ++ "0" ++ l.wholeMark
    else sign ++ l.decimalText (Decimal.shortest x)

end Binary64

end ScriptCore
