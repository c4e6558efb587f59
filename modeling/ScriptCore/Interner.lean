import ScriptCore.Symbol
import ScriptCore.Text.Basic
import Std.Data.HashMap

/-!
# Interning names

An interner keeps its names in the order they came, and beside them a map from names to ids. The
name at position `i` has the id `Symbol.firstInterned + i`, so one direction of the mapping is an
access to the map and the other an access to the list, and an id once given never changes. Ids are
32 bits wide: interning fails when they run out.
-/

namespace ScriptCore

structure Interner where
  ids : Std.HashMap String Symbol := ∅
  names : Array String := #[]

/-- Interning a new name failed after `count` names. -/
inductive InternError where
  | exhausted (count : Nat)
  deriving DecidableEq

namespace InternError

def message : InternError → String
  | .exhausted count =>
    "symbol interner exhausted after " ++ toString count ++ " names (max id is 4294967295)"

def debug : InternError → String
  | .exhausted count => Text.record "Exhausted" [("count", toString count)] false

end InternError

namespace Interner

def empty : Interner := ⟨∅, #[]⟩

def size (t : Interner) : Nat := t.names.size

/-- The symbol of the name at a position. -/
def symbolAt? (i : Nat) : Option Symbol := Symbol.ofNat? (Symbol.firstInterned + i)

/-- The symbol of a name that was interned before. -/
def get? (t : Interner) (name : String) : Option Symbol := t.ids[name]?

/-- The name behind a symbol; none for a reserved id and for one never handed out. -/
def lookup? (t : Interner) (s : Symbol) : Option String :=
  if s.isReserved then none else t.names[s.toNat - Symbol.firstInterned]?

/-- The symbol of a name, interning it if it is new. -/
def intern (t : Interner) (name : String) : Except InternError (Symbol × Interner) :=
  match t.get? name with
  | some s => .ok (s, t)
  | none =>
    match symbolAt? t.size with
    | some s => .ok (s, ⟨t.ids.insert name s, t.names.push name⟩)
    | none => .error (.exhausted t.size)

/-- The interner after a call; a call that is refused leaves it as it was. -/
def after (t : Interner) (name : String) : Interner :=
  match t.intern name with
  | .ok (_, t') => t'
  | .error _ => t

/-- The interner after a sequence of calls, the refused ones among them. -/
def run (t : Interner) (names : List String) : Interner := names.foldl after t

/-- The name of a symbol, or its id when it has none. -/
def label (t : Interner) (s : Symbol) : String := (t.lookup? s).getD s.display

def debug (t : Interner) : String :=
  Text.record "SymbolInterner" [("len", toString t.size)] false

end Interner

end ScriptCore
