import ScriptCore.Decimal.Layout
import ScriptCore.Shape.Buckets
import ScriptCore.Text.Basic

/-!
# Shapes

A shape numbers the members of a lexical construct: each symbol gets the next slot when it is first
created and keeps it. All scopes of the construct share the shape, so a member is found by one probe
and an index. When one more symbol would exceed the load, the shape moves to a larger bucket array;
slots do not change by that, only the buckets they are found in.
-/

namespace ScriptCore

/-- Symbols with their slots, and the load at which the bucket array is replaced. -/
structure Shape where
  buckets : Buckets
  size : Nat
  load : Binary64
  growths : Nat

/-- A load that is not strictly between zero and one, or too small for the largest capacity. -/
inductive ShapeError where
  | invalidLoad (load : Binary64)
  deriving DecidableEq

namespace ShapeError

def message : ShapeError → String
  | .invalidLoad load =>
    "symbol table load factor must be in (0, 1) and admit one symbol, got " ++ load.text .plain

end ShapeError

/-- Occupancy and probe lengths of a shape. -/
structure ShapeStats where
  size : Nat
  capacity : Nat
  growths : Nat
  totalProbes : Nat
  longestProbe : Nat

namespace Shape

def defaultCapacity : Nat := 10

/-- Three quarters. -/
def defaultLoad : Binary64 := ⟨0x3fe8000000000000⟩

/-- The most symbols a bucket array may hold at a load. -/
def threshold (capacity : Nat) (load : Binary64) : Nat := (Binary64.scale capacity load).floor

def capacity (s : Shape) : Nat := s.buckets.size

/-- An empty shape whose capacity is the next listed prime. -/
def ofCapacity (requested : Nat) (load : Binary64) : Shape where
  buckets := .empty ((Capacity.atLeast? requested).getD Capacity.largest)
  size := 0
  load := load
  growths := 0

/-- Some listed capacity can hold a symbol at this load. -/
def isValidLoad (load : Binary64) : Bool :=
  load.isProperFraction && threshold Capacity.largest load != 0

def ofCapacity? (requested : Nat) (load : Binary64) : Except ShapeError Shape :=
  if isValidLoad load then .ok (ofCapacity requested load) else .error (.invalidLoad load)

def empty : Shape := ofCapacity defaultCapacity defaultLoad

/-- The slot of a symbol, if it has one. -/
def get? (s : Shape) (sym : Symbol) : Option Nat := s.buckets.get? sym

/-- The first capacity above `capacity` whose threshold admits `required` symbols, found by at most
`rounds` doublings. -/
def grownCapacity (load : Binary64) (required : Nat) : (rounds capacity : Nat) →
    Except ShapeFault Nat
  | 0, capacity => .error (.growthLimit capacity)
  | rounds + 1, capacity =>
    match Capacity.atLeast? (2 * capacity) with
    | none => .error (.growthLimit capacity)
    | some next =>
      if required ≤ threshold next load then .ok next
      else grownCapacity load required rounds next

/-- Moves to a bucket array that admits `required` symbols. -/
def grow (s : Shape) (required : Nat) : Except ShapeFault Shape := do
  let capacity ← grownCapacity s.load required Capacity.primes.length s.capacity
  let buckets ← s.buckets.rehash capacity
  return { s with buckets, growths := s.growths + 1 }

/-- The slot of a symbol, giving it the next one if it is new. -/
def create (s : Shape) (sym : Symbol) : Except ShapeFault (Nat × Shape) :=
  match s.get? sym with
  | some slot => .ok (slot, s)
  | none => do
    let slot := s.size
    let s ← if threshold s.capacity s.load < slot + 1 then s.grow (slot + 1) else pure s
    let buckets ← s.buckets.insert sym slot
    return (slot, { s with buckets, size := slot + 1 })

/-- The symbols in bucket order. -/
def symbols (s : Shape) : List Symbol := s.buckets.symbols

def stats (s : Shape) : ShapeStats :=
  let seen := s.symbols.map fun sym => (s.buckets.probe sym).2
  { size := s.size
    capacity := s.capacity
    growths := s.growths
    totalProbes := seen.foldl (· + ·) 0
    longestProbe := seen.foldl max 0 }

def debug (s : Shape) : String :=
  Text.record "SymbolTable"
    [("len", toString s.size), ("capacity", toString s.capacity),
     ("load_factor", s.load.text .compact)] true

end Shape

namespace ShapeStats

/-- The average number of buckets a successful lookup looks at. -/
def meanProbe (s : ShapeStats) : Binary64 :=
  if s.size = 0 then .zero else .ofRatio s.totalProbes s.size

def debug (s : ShapeStats) : String :=
  Text.record "SymbolTableStats"
    [("len", toString s.size), ("capacity", toString s.capacity),
     ("grow_count", toString s.growths), ("total_probes", toString s.totalProbes),
     ("longest_probe", toString s.longestProbe)] false

end ShapeStats

/-- A position in the bucket array a shape has after so many growths. The array is shared with the
shape: what is placed there later is seen, until the shape moves to another one. -/
structure Cursor where
  generation : Nat
  buckets : Buckets
  position : Nat

namespace Cursor

def start (s : Shape) : Cursor := ⟨s.growths, s.buckets, 0⟩

/-- The same position once its shape has become `s`. An array that the shape has left stays as it
was then. -/
def follow (c : Cursor) (s : Shape) : Cursor :=
  if s.growths = c.generation then { c with buckets := s.buckets } else c

/-- Skips empty buckets from `position` on, for at most `left` buckets. -/
def advance (b : Buckets) : (left position : Nat) → Option Symbol × Nat
  | 0, position => (none, position)
  | left + 1, position =>
    match b[position]? with
    | some (some e) => (some e.symbol, position + 1)
    | some none => advance b left (position + 1)
    | none => (none, position)

/-- The next symbol in bucket order. -/
def next (c : Cursor) : Option Symbol × Cursor :=
  let r := advance c.buckets (c.buckets.size - c.position) c.position
  (r.1, { c with position := r.2 })

/-- An upper bound on the symbols still to come. -/
def remaining (c : Cursor) : Nat := c.buckets.size - c.position

end Cursor

end ScriptCore
