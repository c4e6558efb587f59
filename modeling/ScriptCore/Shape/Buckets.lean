import ScriptCore.Symbol

/-!
# Buckets and probing

Open addressing with double hashing. A symbol starts at the bucket its byte-reversed id falls on
and moves on by a step that depends on the id itself, wrapping around. With a prime number of
buckets the step is coprime to it, so the walk passes every bucket before it comes back to the
first. A walk ends at the first bucket that is empty or holds the symbol.

The numbers of buckets are therefore always taken from a list of primes. It is dense up to a hundred
and then grows by about a quarter a step.
-/

namespace ScriptCore

namespace Capacity

/-- The primes a bucket array may have as its size, in ascending order. -/
def primes : List Nat :=
  [3, 5, 7, 11, 13, 17, 19, 23, 29, 31, 37, 41, 43, 47, 53, 59, 61, 67, 71, 73, 79, 83, 89, 97,
   127, 163, 211, 269, 337, 431, 541, 677, 853, 1069, 1361, 1709, 2137, 2677, 3347, 4201, 5261,
   6577, 8231, 10289, 12889, 16127, 20161, 25219, 31531, 39419, 49277, 61603, 77017, 96281,
   120371, 150473, 188107, 235159, 293957, 367453, 459317, 574157, 717697, 897133, 1121423,
   1401791, 1752239, 2190299, 2737937, 3422429, 4278037, 5347553, 6684443, 8355563, 10444457,
   13055587, 16319519, 20399411, 25499291, 31874149, 39842687, 49803361, 62254207, 77817767,
   97272239, 121590311, 151987889, 189984863, 237481091, 296851369, 371064217, 463830313,
   579787991, 724735009, 905918777, 1132398479, 1415498113, 1769372713]

def largest : Nat := 1769372713

/-- The smallest prime of the list that is at least `n`. -/
def atLeast? (n : Nat) : Option Nat := primes.find? (n ≤ ·)

end Capacity

/-- A symbol together with the slot it was given. -/
structure Bucket where
  symbol : Symbol
  slot : Nat
  deriving DecidableEq

/-- A bucket array; `none` marks an empty bucket. -/
abbrev Buckets := Array (Option Bucket)

/-- Where a probe sequence ended. -/
inductive Probe where
  | found (index slot : Nat)
  | vacant (index : Nat)
  | exhausted
  deriving DecidableEq

/-- Why a table could not take a symbol. None of these happens to a table that keeps its load
below one and stays within the listed capacities. -/
inductive ShapeFault where
  | insertedTwice (symbol : Symbol)
  | probeExhausted (capacity : Nat)
  | growthLimit (capacity : Nat)
  deriving DecidableEq

/-- The four bytes of a number in reverse order. -/
def swapBytes (n : Nat) : Nat :=
  n % 256 * 16777216 + n / 256 % 256 * 65536 + n / 65536 % 256 * 256 + n / 16777216 % 256

namespace Buckets

def empty (capacity : Nat) : Buckets := Array.replicate capacity none

/-- The first bucket a symbol is looked for in. -/
def home (capacity : Nat) (s : Symbol) : Nat := swapBytes s.toNat % capacity

/-- How far a symbol moves on from a bucket taken by another one. -/
def stride (capacity : Nat) (s : Symbol) : Nat := 1 + s.toNat % (capacity - 2)

/-- Walks on from bucket `i` for at most `left` buckets, counting those it looks at. -/
def probeFrom (b : Buckets) (s : Symbol) : (left i seen : Nat) → Probe × Nat
  | 0, _, seen => (.exhausted, seen)
  | left + 1, i, seen =>
    match b[i]? with
    | some (some e) =>
      if e.symbol = s then (.found i e.slot, seen + 1)
      else probeFrom b s left ((i + stride b.size s) % b.size) (seen + 1)
    | _ => (.vacant i, seen + 1)

/-- Where the probe sequence of a symbol ends, and how many buckets it looked at. -/
def probe (b : Buckets) (s : Symbol) : Probe × Nat :=
  probeFrom b s b.size (home b.size s) 0

def get? (b : Buckets) (s : Symbol) : Option Nat :=
  match (b.probe s).1 with
  | .found _ slot => some slot
  | _ => none

/-- Places a symbol that is not there yet. -/
def insert (b : Buckets) (s : Symbol) (slot : Nat) : Except ShapeFault Buckets :=
  match (b.probe s).1 with
  | .vacant i => .ok (b.setIfInBounds i (some ⟨s, slot⟩))
  | .found _ _ => .error (.insertedTwice s)
  | .exhausted => .error (.probeExhausted b.size)

/-- Places every entry of `old` into an empty array, in bucket order. -/
def rehash (old : Buckets) (capacity : Nat) : Except ShapeFault Buckets :=
  old.toList.foldlM
    (fun b e =>
      match e with
      | some e => b.insert e.symbol e.slot
      | none => .ok b)
    (empty capacity)

/-- The symbols in bucket order. -/
def symbols (b : Buckets) : List Symbol := b.toList.filterMap (Option.map Bucket.symbol)

end Buckets

end ScriptCore
