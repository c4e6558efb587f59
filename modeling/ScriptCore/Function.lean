import ScriptCore.Scope.Basic

/-!
# Functions

A function is a body with the durable scope its free names resolve in. Functions do not change once
made, so a value only holds the position of one.
-/

namespace ScriptCore

structure Function where
  name : Option Symbol
  body : Node
  /-- The function this one overrides. -/
  overridden : Option FunctionId := none
  closure : Option DurableScope := none
  /-- Whether the body makes functions of its own, which then share the scope of the call. -/
  enclosesFunctions : Bool := false

/-- All functions made so far. -/
abbrev Functions := Array Function

namespace Function

def display (names : Interner) (f : Function) : String :=
  match f.name.bind names.lookup? with
  | some name => "<function " ++ name ++ ">"
  | none => "<function>"

def debug (f : Function) : String :=
  Text.record "FunctionValue"
    [("name", Text.optional (f.name.map Symbol.debug)),
     ("overrides", Text.boolean f.overridden.isSome),
     ("closure", Text.boolean f.closure.isSome),
     ("encloses_functions", Text.boolean f.enclosesFunctions)] true

end Function

namespace FunctionBinding

/-- The super of an activation: the bound one if a receiver is bound too, else the function the
callee overrides, else null. -/
def superValue (b : FunctionBinding) (fs : Functions) : Value :=
  match b.this, b.super with
  | some _, some bound => bound
  | _, _ =>
    match fs[b.callee]?.bind Function.overridden with
    | some f => .function f
    | none => .null

end FunctionBinding

namespace ScopeKind

/-- The receiver, if this scope answers for it. -/
def this? : ScopeKind → Option Value
  | .block => none
  | .function b => b.this

def super? (fs : Functions) : ScopeKind → Option Value
  | .block => none
  | .function b => some (b.superValue fs)

def callee? : ScopeKind → Option Value
  | .block => none
  | .function b => some (.function b.callee)

end ScopeKind

end ScriptCore
