import ScriptCore.Program.Session

/-!
# Actions on functions and values

A function is a node together with its name, the function it overrides and the scope it closes
over. Once made it does not change.
-/

namespace ScriptCore

namespace Perform

open Run

/-- An operand that may be absent. -/
def optionally {α β : Type} (f : α → Run β) : Option α → Run (Option β)
  | none => return none
  | some a => return some (← f a)

def makeFunction (current : ScopeRef) (node : Field String) (name : Option (Field Symbol))
    (overridden : Option (Field String)) (closure : Option (Field Place)) (encloses : Bool) :
    Run Answer := do
  let body ← nodeOperand node
  let name := (← optionally ofField name).or body.name
  let overridden ← optionally functionOperand overridden
  let closure ← optionally (durableOperand current) closure
  let f : Function := { name, body, overridden, closure, enclosesFunctions := encloses }
  let id ← onStore fun st => st.addFunction f
  let view := (← get).view
  let names := (← store).names
  return {
    reply := .many [
      .text (f.display names),
      match name with
        | some s => .count s.toNat
        | none => .nothing,
      .flag encloses, .flag overridden.isSome,
      Answer.optionalScope view (closure.map .durable)]
    result := some (.function id) }

def evaluate (current : ScopeRef) (v : Expr) : Run Answer := do
  let v ← v.eval current
  return { reply := .value v, result := some (.value v) }

def present (current : ScopeRef) (v : Expr) : Run Answer := do
  return { reply := .shown (← v.eval current) }

def compare (current : ScopeRef) (a b : Expr) : Run Answer := do
  let a ← a.eval current
  let b ← b.eval current
  return { reply := .flag (a.equal b) }

end Perform

end ScriptCore
