import ScriptCore.Config
import ScriptCore.Store

/-!
# Stack frames

A frame is the execution state of one thread. Depth 0 is the host, and every activation runs one
depth down. Each depth remembers what runs there and which pooled scopes and tables were allocated
while it was on top; when the depth ends, everything still on its list goes back to the pools,
newest first.

A member table is on the list of a depth or belongs to a scope, never both: handing a table to a
scope takes it off its list, and it is then released together with the scope. Releasing something
early takes it off its list by moving the newest allocation of the depth into its place.
-/

namespace ScriptCore

/-- The number of a thread. -/
abbrev ThreadId := Nat

/-- Something to give back to a pool when a depth ends. -/
inductive Allocation where
  | scope (key : PoolKey)
  | table (key : PoolKey)
  deriving DecidableEq

namespace Allocation

/-- Takes an allocation off a list that has the newest first; the newest one fills its place. -/
def withdraw (a : Allocation) : List Allocation → List Allocation
  | [] => []
  | newest :: rest =>
    if newest = a then rest
    else if rest.contains a then rest.replace a newest
    else newest :: rest

end Allocation

/-- One depth: what runs there, where, and what it has to give back, newest first. -/
structure DepthEntry where
  node : Option Node := none
  line : UInt32 := 0
  scope : Option ScopeRef := none
  allocations : List Allocation := []

namespace DepthEntry

/-- Forgets the activation and keeps the allocations. -/
def clear (e : DepthEntry) : DepthEntry := { allocations := e.allocations }

end DepthEntry

/-- The execution state of a thread. -/
structure Frame where
  config : FrameConfig
  depth : Nat := 0
  /-- By depth; there may be entries left above the current one. -/
  entries : Array DepthEntry := #[{}]
  scopes : Pool (Option PooledScope) := .empty
  tables : Pool MemberTable := .empty
  /-- The global scope its chains end at. -/
  global : GlobalId
  flag : FlagId
  /-- The thread it is registered for. -/
  registered : Option ThreadId := none

/-- How the pools of a frame were used so far. -/
structure PoolStats where
  scopesCreated : Nat
  scopesReused : Nat
  scopesLive : Nat
  tablesCreated : Nat
  tablesReused : Nat
  tablesLive : Nat
  deriving DecidableEq

namespace PoolStats

def debug (s : PoolStats) : String :=
  Text.record "PoolStats"
    [("scopes_created", toString s.scopesCreated), ("scopes_reused", toString s.scopesReused),
     ("scopes_live", toString s.scopesLive), ("tables_created", toString s.tablesCreated),
     ("tables_reused", toString s.tablesReused), ("tables_live", toString s.tablesLive)] false

end PoolStats

namespace Frame

/-- The entry of the current depth. -/
def top (f : Frame) : DepthEntry := f.entries[f.depth]?.getD {}

def globalScope (f : Frame) : ScopeRef := .ofGlobal f.global

def stats (f : Frame) : PoolStats where
  scopesCreated := f.scopes.created
  scopesReused := f.scopes.reused
  scopesLive := f.scopes.live
  tablesCreated := f.tables.created
  tablesReused := f.tables.reused
  tablesLive := f.tables.live

def debug (f : Frame) : String :=
  Text.record "StackFrame" [("depth", toString f.depth), ("pools", f.stats.debug)] true

/-! ## Access -/

/-- The live scope a key reaches. -/
def scope? (f : Frame) (k : PoolKey) : Option PooledScope := (f.scopes.get? k).bind id

def getScope (f : Frame) (k : PoolKey) : Except EvalError PooledScope :=
  match f.scope? k with
  | some s => .ok s
  | none => .error (ErrorKind.staleHandle .scope)

def getTable (f : Frame) (k : PoolKey) : Except EvalError MemberTable :=
  match f.tables.get? k with
  | some t => .ok t
  | none => .error (ErrorKind.staleHandle .memberTable)

/-- Runs an operation of the pool of scopes. -/
@[inline] def onScopes {α : Type} (f : Frame)
    (g : Pool (Option PooledScope) → α × Pool (Option PooledScope)) : α × Frame :=
  let ⟨config, depth, entries, scopes, tables, global, flag, registered⟩ := f
  let (a, scopes) := g scopes
  (a, ⟨config, depth, entries, scopes, tables, global, flag, registered⟩)

/-- Runs an operation of the pool of tables. -/
@[inline] def onTables {α : Type} (f : Frame)
    (g : Pool MemberTable → α × Pool MemberTable) : α × Frame :=
  let ⟨config, depth, entries, scopes, tables, global, flag, registered⟩ := f
  let (a, tables) := g tables
  (a, ⟨config, depth, entries, scopes, tables, global, flag, registered⟩)

theorem onScopes_eq {α : Type} (f : Frame)
    (g : Pool (Option PooledScope) → α × Pool (Option PooledScope)) :
    f.onScopes g = ((g f.scopes).1, { f with scopes := (g f.scopes).2 }) := rfl

theorem onTables_eq {α : Type} (f : Frame) (g : Pool MemberTable → α × Pool MemberTable) :
    f.onTables g = ((g f.tables).1, { f with tables := (g f.tables).2 }) := rfl

def modifyTable (f : Frame) (k : PoolKey) (g : MemberTable → MemberTable) : Frame :=
  { f with tables := f.tables.modify k g }

def modifyEntry (f : Frame) (depth : Nat) (g : DepthEntry → DepthEntry) : Frame :=
  { f with entries := f.entries.modify depth g }

/-! ## Registration of allocations -/

/-- Puts an allocation on the list of the current depth. -/
def register (f : Frame) (a : Allocation) : Frame :=
  f.modifyEntry f.depth fun e => { e with allocations := a :: e.allocations }

/-- Takes an allocation off the list of a depth. -/
def withdraw (f : Frame) (depth : Nat) (a : Allocation) : Frame :=
  f.modifyEntry depth fun e => { e with allocations := a.withdraw e.allocations }

/-! ## Member tables -/

/-- A table from the pool with room for `size` slots. If so much room cannot be made, the entry was
handed out all the same, and nobody holds its key. -/
def acquireTable (f : Frame) (depth : Option Nat) (size : Nat) : Option PoolKey × Frame :=
  let fresh := MemberTable.withMinCapacity f.config.minTableCapacity
  f.onTables fun p =>
    let (k, p) := p.acquire depth fresh
    if (p.get? k).any (·.fits size) then (some k, p.modify k (·.ensureCapacity size))
    else (none, p)

/-- Gives a table back to the pool. False if it was given back already. -/
def releaseTable (f : Frame) (k : PoolKey) : Bool × Frame :=
  f.onTables fun p =>
    let (item, p) := p.release k MemberTable.reset
    (item.isSome, p)

/-- A table that the current depth gives back, unless there is no room for it. -/
def allocateTable (f : Frame) (size : Nat) : Option PoolKey × Frame :=
  match f.acquireTable (some f.depth) size with
  | (none, f) => (none, f)
  | (some k, f) => (some k, f.register (.table k))

/-- Takes a table off the list it is on; from now on it belongs to no depth. -/
def detachTable (f : Frame) (k : PoolKey) : Frame :=
  match f.tables.depthOf? k with
  | some depth => { f with tables := f.tables.detach k }.withdraw depth (.table k)
  | none => f

def freeTable (f : Frame) (k : PoolKey) : Bool × Frame := (f.detachTable k).releaseTable k

/-- Copies the slots of a table out of the pool and gives the table back. -/
def takeTable (f : Frame) (k : PoolKey) : Except EvalError MemberTable × Frame :=
  match f.getTable k with
  | .error e => (.error e, f)
  | .ok t => (.ok t.clone, (f.freeTable k).2)

/-! ## Scopes -/

/-- A scope over a member table, which the current depth gives back. -/
def installScope (f : Frame) (kind : ScopeKind) (previous : ScopeRef) (shape : ShapeId)
    (members : PoolKey) : PoolKey × Frame :=
  let depth := f.depth
  let (k, f) := f.onScopes fun p =>
    let (k, p) := p.acquire (some depth) none
    (k, p.modify k fun _ => some { kind, previous, shape, members })
  (k, f.register (.scope k))

/-- A block scope over a table of its own, with room for the members of its shape. -/
def allocateBlock (f : Frame) (previous : ScopeRef) (shape : ShapeId) (shapeSize : Nat) :
    Option PoolKey × Frame :=
  match f.acquireTable none shapeSize with
  | (none, f) => (none, f)
  | (some members, f) =>
    let (k, f) := f.installScope .block previous shape members
    (some k, f)

/-- A function scope over a table of arguments, which belongs to the scope from now on. A table
that has no room for the members of the shape stays where it is. -/
def allocateFunction (f : Frame) (binding : FunctionBinding) (previous : ScopeRef)
    (shape : ShapeId) (shapeSize : Nat) (members : PoolKey) : Outcome PoolKey × Frame :=
  match f.getTable members with
  | .error e => (.raised e, f)
  | .ok table =>
    if table.fits shapeSize then
      let f := (f.modifyTable members (·.ensureCapacity shapeSize)).detachTable members
      let (k, f) := f.installScope (.function binding) previous shape members
      (.done k, f)
    else (.panicked, f)

/-- Gives a scope back to the pool, and its table with it. False if the key is stale. -/
def releaseScope (f : Frame) (k : PoolKey) : Bool × Frame :=
  let (scope, f) := f.onScopes fun p => p.release k fun _ => none
  match scope with
  | some (some s) => (true, (f.releaseTable s.members).2)
  | some none => (true, f)
  | none => (false, f)

/-- Releases a pooled scope before its depth ends. False for a durable scope or a stale key. -/
def freeScope (f : Frame) : ScopeRef → Bool × Frame
  | .durable _ => (false, f)
  | .pooled k =>
    let f :=
      match f.scopes.depthOf? k with
      | some depth => f.withdraw depth (.scope k)
      | none => f
    f.releaseScope k

/-! ## Depths -/

def release (f : Frame) : Allocation → Frame
  | .scope k => (f.releaseScope k).2
  | .table k => (f.releaseTable k).2

/-- Gives back everything on the list of a depth, newest first. -/
def reclaim (f : Frame) (depth : Nat) : Frame :=
  let allocations := (f.entries[depth]?.map (·.allocations)).getD []
  allocations.foldl release (f.modifyEntry depth fun e => { e with allocations := [] })

/-- Begins an activation one depth down. -/
def enter (f : Frame) (node : Node) (scope : ScopeRef) : Frame :=
  let depth := f.depth + 1
  let begin (e : DepthEntry) : DepthEntry :=
    { e with node := some node, line := 0, scope := some scope }
  { f with
    depth
    entries :=
      if f.entries.size ≤ depth then f.entries.push (begin {}) else f.entries.modify depth begin }

/-- Ends the activation of the current depth. -/
def leave (f : Frame) : Frame :=
  let depth := f.depth
  let f := (f.reclaim depth).modifyEntry depth DepthEntry.clear
  { f with depth := depth - 1 }

/-- Gives back everything the host allocated outside any activation. -/
def reset (f : Frame) : Frame := (f.reclaim 0).modifyEntry 0 DepthEntry.clear

def setLine (f : Frame) (line : UInt32) : Frame := f.modifyEntry f.depth fun e => { e with line }

def setLineIn (f : Frame) (scope : ScopeRef) (line : UInt32) : Frame :=
  f.modifyEntry f.depth fun e => { e with scope := some scope, line }

/-- The active depths with their entries, the deepest first. -/
def activations (f : Frame) : List (Nat × DepthEntry) :=
  ((List.range f.depth).map (· + 1)).reverse.filterMap fun d =>
    f.entries[d]?.map fun e => (d, e)

end Frame

end ScriptCore
