import ScriptCore.Frame.Chain

/-!
# Threads and their frames

Each thread holds at most one frame, made when it is first needed. A registry maps a thread to the
termination flag of its frame, so that another thread can ask it to stop. Forgetting all frames
only starts a new epoch and empties the registry: a thread finds out that its frame is from an
older epoch when it next asks for it, and gets a new one.

While a thread runs on its frame the frame is lent out. The thread can then neither borrow it a
second time nor put another one in its place.
-/

namespace ScriptCore

/-- A frame with the epoch it was put in place in. -/
structure Installed where
  frame : Frame
  epoch : Nat

/-- What a thread has in the place of its frame. -/
inductive ThreadSlot where
  | vacant
  | holding (installed : Installed)
  /-- The frame is lent out; only its epoch is left here. -/
  | lent (epoch : Nat)

structure Threads where
  /-- How often all frames were forgotten. A machine word holds it: fewer than 2^64 times. -/
  epoch : Nat := 0
  /-- The registered threads with the flags of their frames. -/
  registry : List (ThreadId × FlagId) := []
  slots : List (ThreadId × ThreadSlot) := []

/-- The position of the global scope that all frames share unless they are given their own. -/
def processGlobal : GlobalId := 0

namespace Threads

def slot (t : Threads) (id : ThreadId) : ThreadSlot := (t.slots.lookup id).getD .vacant

def setSlot (t : Threads) (id : ThreadId) (s : ThreadSlot) : Threads :=
  { t with slots := (id, s) :: t.slots.filter fun p => p.1 != id }

def flag? (t : Threads) (id : ThreadId) : Option FlagId := t.registry.lookup id

def isRegistered (t : Threads) (id : ThreadId) : Bool := (t.flag? id).isSome

def registeredCount (t : Threads) : Nat := t.registry.length

/-- Registers the flag of a thread's frame, in place of any older one. -/
def register (t : Threads) (id : ThreadId) (flag : FlagId) : Threads :=
  { t with registry := (id, flag) :: t.registry.filter fun p => p.1 != id }

/-- Removes a registration, unless it is for another frame by now. -/
def deregister (t : Threads) (id : ThreadId) (flag : FlagId) : Threads :=
  if t.flag? id = some flag then
    { t with registry := t.registry.filter fun p => p.1 != id }
  else t

/-- Registers a frame for a thread. -/
def attach (t : Threads) (id : ThreadId) (f : Frame) : Frame × Threads :=
  ({ f with registered := some id }, t.register id f.flag)

/-- Undoes the registration of a frame. -/
def detach (t : Threads) (f : Frame) : Frame × Threads :=
  match f.registered with
  | some id => ({ f with registered := none }, t.deregister id f.flag)
  | none => (f, t)

/-- Takes the frame out of a thread's place, undoing its registration. -/
def take (t : Threads) (id : ThreadId) : Except EvalError (Option Frame × Threads) :=
  match t.slot id with
  | .lent _ => .error ErrorKind.frameBusy
  | .vacant => .ok (none, t)
  | .holding i =>
    let (f, t) := (t.setSlot id .vacant).detach i.frame
    .ok (some f, t)

/-- Puts a frame in a thread's place and registers it; the frame that was there comes back. -/
def install (t : Threads) (id : ThreadId) (f : Frame) :
    Except EvalError (Option Frame × Threads) :=
  match t.take id with
  | .error e => .error e
  | .ok (previous, t) =>
    let (f, t) := t.attach id f
    .ok (previous, t.setSlot id (.holding ⟨f, t.epoch⟩))

/-- Starts a new epoch and forgets every registration. -/
def forget (t : Threads) : Threads := { t with epoch := t.epoch + 1, registry := [] }

/-- Raises the flag of a thread's frame. False if the thread is not registered. -/
def terminate (t : Threads) (st : Store) (id : ThreadId) : Bool × Store :=
  match t.flag? id with
  | some flag => (true, st.raiseFlag flag)
  | none => (false, st)

/-- A frame with the default limits on the shared global scope. -/
def freshFrame (st : Store) : Frame × Store :=
  let (flag, st) := st.addFlag false
  ({ config := .default, global := processGlobal, flag }, st)

/-- Lends out the frame of a thread. One from an older epoch is dropped first, and a thread that has
none gets a fresh one. -/
def borrow (t : Threads) (st : Store) (id : ThreadId) :
    Except EvalError (Installed × Threads × Store) :=
  let lend (i : Installed) (t : Threads) (st : Store) := (i, t.setSlot id (.lent i.epoch), st)
  let fresh (t : Threads) :=
    let (f, st) := freshFrame st
    let (f, t) := t.attach id f
    lend ⟨f, t.epoch⟩ t st
  match t.slot id with
  | .lent _ => .error ErrorKind.frameBusy
  | .vacant => .ok (fresh t)
  | .holding i =>
    if i.epoch = t.epoch then .ok (lend i t st)
    else .ok (fresh (t.detach i.frame).2)

/-- Takes a lent frame back. -/
def giveBack (t : Threads) (id : ThreadId) (i : Installed) : Threads :=
  t.setSlot id (.holding i)

/-- Ends a thread: its frame goes, and with it the registration. -/
def finish (t : Threads) (id : ThreadId) : Threads :=
  let dropped :=
    match t.slot id with
    | .holding i => (t.detach i.frame).2
    | _ => t
  { dropped with slots := dropped.slots.filter fun p => p.1 != id }

end Threads

end ScriptCore
