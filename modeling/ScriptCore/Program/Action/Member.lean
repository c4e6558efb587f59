import ScriptCore.Program.Session

/-!
# Actions on names

Declaring touches the given scope alone; looking a name up also passes the scopes around it. The
operations that compute a value first do so before they look at the slot the value goes to.
-/

namespace ScriptCore

namespace Perform

open Run

def declareIn (s : ScopeRef) (sym : Symbol) (a : Attributes) : Run SlotRef := do
  ofOutcome (← onEngine fun e => e.declare s sym a)

def assignTo (slot : SlotRef) (v : Value) : Run Unit := do
  ofOutcome (← onEngine fun e => e.assign slot v)

def resolveIn (s : ScopeRef) (sym : Symbol) : Run SlotRef := do
  orRaise ((← engine).resolve s sym)

def loadFrom (slot : SlotRef) : Run Value := do
  orRaise ((← engine).load slot)

def declareMember (current : ScopeRef) (scope : Field Place) (s : Field Symbol)
    (a : Field Attributes) : Run Answer := do
  let scope ← scopeOperand current scope
  let s ← ofField s
  let a ← ofField a
  let slot ← declareIn scope s a
  return { reply := .slotRef slot, result := some (.slot slot) }

def bindMember (current : ScopeRef) (scope : Field Place) (s : Field Symbol) (a : Field Attributes)
    (v : Expr) : Run Answer := do
  let scope ← scopeOperand current scope
  let s ← ofField s
  let a ← ofField a
  let v ← v.eval current
  let slot ← declareIn scope s a
  assignTo slot v
  return { reply := .slotRef slot }

def lookupMember (current : ScopeRef) (scope : Field Place) (s : Field Symbol) : Run Answer := do
  let scope ← scopeOperand current scope
  let s ← ofField s
  let slot ← resolveIn scope s
  return { reply := .slotRef slot, result := some (.slot slot) }

def loadSlot (slot : Field String) : Run Answer := do
  let v ← loadFrom (← slotOperand slot)
  return { reply := .value v, result := some (.value v) }

def storeSlot (current : ScopeRef) (v : Expr) (slot : Field String) : Run Answer := do
  let v ← v.eval current
  let slot ← slotOperand slot
  assignTo slot v
  return { reply := .ok }

def getMember (current : ScopeRef) (scope : Field Place) (s : Field Symbol) : Run Answer := do
  let scope ← scopeOperand current scope
  let s ← ofField s
  let slot ← resolveIn scope s
  let v ← loadFrom slot
  return { reply := .many [.slotRef slot, .value v], result := some (.ofValue v) }

def setMember (current : ScopeRef) (scope : Field Place) (s : Field Symbol) (v : Expr) :
    Run Answer := do
  let scope ← scopeOperand current scope
  let s ← ofField s
  let v ← v.eval current
  let slot ← resolveIn scope s
  assignTo slot v
  return { reply := .slotRef slot }

def listSymbols (current : ScopeRef) (scope : Field Place) (includePrivate : Bool) :
    Run Answer := do
  let scope ← scopeOperand current scope
  return { reply := .symbols (← orRaise ((← engine).symbols scope includePrivate)) }

/-- Answers with what the engine says of a scope. -/
def ask (current : ScopeRef) (scope : Field Place)
    (question : Engine → ScopeRef → Except EvalError Value) : Run Answer := do
  let scope ← scopeOperand current scope
  let v ← orRaise (question (← engine) scope)
  return { reply := .value v, result := some (.ofValue v) }

/-- The members of a fixed source, from left to right. -/
def fixedMembers (current : ScopeRef) : List (Field Symbol × Expr) → Run (List (Symbol × Value))
  | [] => return []
  | (s, x) :: rest => do
    let s ← ofField s
    let v ← x.eval current
    return (s, v) :: (← fixedMembers current rest)

def mixinSource (current : ScopeRef) (scope : Field Place) (source : MixinOperand) :
    Run Answer := do
  let scope ← scopeOperand current scope
  let source ← match source with
    | .scope p => MemberSource.scope <$> durableOperand current p
    | .fixed ms => MemberSource.fixed <$> (do fixedMembers current (← ofField ms))
  orRaise (← onEngine fun e => e.mixin scope source)
  return { reply := .ok }

def sourceGet (current : ScopeRef) (scope : Field Place) (s : Field Symbol) : Run Answer := do
  let d ← durableOperand current scope
  let s ← ofField s
  return { reply := .optional ((← store).publicMember? d s) }

def sourceSet (current : ScopeRef) (v : Expr) (scope : Field Place) (s : Field Symbol) :
    Run Answer := do
  let v ← v.eval current
  let d ← durableOperand current scope
  let s ← ofField s
  ofOutcome (← onStore fun st => st.assignPublic d s v)
  return { reply := .ok }

def sourceSymbols (current : ScopeRef) (scope : Field Place) (includePrivate : Bool) :
    Run Answer := do
  let d ← durableOperand current scope
  return { reply := .symbols ((← store).symbols d includePrivate) }

def globalScope (id : GlobalId) : Run GlobalScope :=
  return (← store).globals[id]?.getD {}

def defineGlobal (current : ScopeRef) (scope : Field Place) (s : Field Symbol) (v : Expr) :
    Run Answer := do
  let id ← globalOperand current scope
  let s ← ofField s
  let v ← v.eval current
  ofOutcome (← onStore fun st => st.define id s v)
  return { reply := .count (← globalScope id).size }

def globalGet (current : ScopeRef) (scope : Field Place) (s : Field Symbol) : Run Answer := do
  let id ← globalOperand current scope
  let s ← ofField s
  return { reply := .optional (((← globalScope id).get? s).map Slot.value) }

def globalSize (current : ScopeRef) (scope : Field Place) : Run Answer := do
  let g ← globalScope (← globalOperand current scope)
  return { reply := .many [.count g.size, .flag (g.size == 0)] }

end Perform

end ScriptCore
