/-!
# Pools

A pool hands out entries and takes them back. A released entry keeps its place and its item, gets a
new generation, and goes on top of the free list, so that the entry released last is handed out
first. A key names an entry and the generation it was handed out in: after the release no key for
that generation reaches the entry any more, whoever holds it by then. Generations are 32 bits wide
and wrap around.
-/

namespace ScriptCore

/-- An entry of a pool, in one of its generations. -/
structure PoolKey where
  index : Nat
  generation : UInt32
  deriving DecidableEq, Hashable

/-- An entry with the depth whose end releases it. An entry that belongs to another one has
no depth. -/
structure PoolEntry (α : Type) where
  generation : UInt32
  isLive : Bool
  depth : Option Nat
  item : α

/-- Entries, and the indices of those that are free, the next one to hand out first. -/
structure Pool (α : Type) where
  entries : Array (PoolEntry α) := #[]
  free : List Nat := []
  created : Nat := 0
  reused : Nat := 0

namespace Pool

variable {α : Type}

def empty : Pool α := {}

def live (p : Pool α) : Nat := p.entries.size - p.free.length

/-- The entry a key reaches: live, and still in the generation of the key. -/
def entry? (p : Pool α) (k : PoolKey) : Option (PoolEntry α) :=
  p.entries[k.index]?.filter fun e => e.isLive && e.generation == k.generation

def get? (p : Pool α) (k : PoolKey) : Option α := (p.entry? k).map (·.item)

/-- The depth that will release the entry, if it is live and has one. -/
def depthOf? (p : Pool α) (k : PoolKey) : Option Nat := (p.entry? k).bind (·.depth)

/-- Hands out an entry for a depth. A free entry keeps the item it had; `fresh` is the item of a
new one. -/
def acquire (p : Pool α) (depth : Option Nat) (fresh : α) : PoolKey × Pool α :=
  match p.free with
  | i :: free =>
    let generation := (p.entries[i]?.map (·.generation)).getD 0
    (⟨i, generation⟩,
      { p with
        entries := p.entries.modify i fun e => { e with isLive := true, depth }
        free
        reused := p.reused + 1 })
  | [] =>
    (⟨p.entries.size, 0⟩,
      { p with
        entries := p.entries.push { generation := 0, isLive := true, depth, item := fresh }
        created := p.created + 1 })

/-- Changes the item a key reaches. -/
def modify (p : Pool α) (k : PoolKey) (f : α → α) : Pool α :=
  if (p.entry? k).isSome then
    { p with entries := p.entries.modify k.index fun e => { e with item := f e.item } }
  else p

/-- Takes an entry back, leaving `clear item` in it, and answers with the item. A stale key takes
nothing back. -/
def release (p : Pool α) (k : PoolKey) (clear : α → α) : Option α × Pool α :=
  match p.get? k with
  | none => (none, p)
  | some item =>
    (some item,
      { p with
        entries := p.entries.modify k.index fun e =>
          { generation := e.generation + 1, isLive := false, depth := none, item := clear e.item }
        free := k.index :: p.free })

/-- Makes the entry belong to no depth. -/
def detach (p : Pool α) (k : PoolKey) : Pool α :=
  if (p.entry? k).isSome then
    { p with entries := p.entries.modify k.index fun e => { e with depth := none } }
  else p

end Pool

end ScriptCore
