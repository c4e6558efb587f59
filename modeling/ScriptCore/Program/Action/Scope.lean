import ScriptCore.Program.Session

/-!
# Actions on scopes

Scopes are allocated in the pools of the frame or on the heap. A heap scope lasts for good, so what
encloses it must be durable too.
-/

namespace ScriptCore

namespace Perform

open Run

/-- Answers with a scope and offers it. -/
def answerScope (s : ScopeRef) : Run Answer := do
  return { reply := .scope ((← get).view s), result := some (.scope s) }

def allocateBlock (current : ScopeRef) (previous : Field Place) (shape : Field (Option String)) :
    Run Answer := do
  let previous ← scopeOperand current previous
  let shape ← shapeOrNew shape
  let size := (← store).shapeSize shape
  let k ← onFrame fun f => f.allocateBlock previous shape size
  answerScope (.pooled (← orPanic k))

def allocateFunction (current : ScopeRef) (previous : Field Place) (function : Field String)
    (shape : Field (Option String)) (this super : Option Expr) (table : Field String) :
    Run Answer := do
  let previous ← scopeOperand current previous
  let callee ← functionOperand function
  let shape ← shapeOrNew shape
  let this ← Expr.evalOption current this
  let super ← Expr.evalOption current super
  let table ← takeTableOperand table
  let size := (← store).shapeSize shape
  let k ← onFrame fun f => f.allocateFunction ⟨callee, this, super⟩ previous shape size table
  answerScope (.pooled (← ofOutcome k))

def heapBlock (current : ScopeRef) (previous : Field Place) (shape : Field (Option String)) :
    Run Answer := do
  let previous ← durableOperand current previous
  let shape ← shapeOrNew shape
  let size := (← store).shapeSize shape
  let members := MemberTable.withMinCapacity size
  let id ← onStore fun st => st.addHeap { kind := .block, previous, shape, members }
  return {
    reply := .many [.kind (some .block), .count size, .count members.size]
    result := some (.scope (.durable (.ofHeap id))) }

def heapFunction (current : ScopeRef) (previous : Field Place) (this super : Option Expr)
    (table : Option (Field String)) (function : Field String) (shape : Field (Option String)) :
    Run Answer := do
  let previous ← durableOperand current previous
  let this ← Expr.evalOption current this
  let super ← Expr.evalOption current super
  let members ← match table with
    | some name => pure (← ownedOperand name).clone
    | none => pure MemberTable.empty
  let callee ← functionOperand function
  let shape ← shapeOrNew shape
  let binding : FunctionBinding := ⟨callee, this, super⟩
  let id ← onStore fun st => st.addHeap { kind := .function binding, previous, shape, members }
  return {
    reply := .many [.optional this, .value (binding.superValue (← store).functions),
      .value (.function callee)]
    result := some (.scope (.durable (.ofHeap id))) }

def newGlobal : Run Answer := do
  let id ← onStore fun st => st.addGlobal
  return { reply := .nothing, result := some (.scope (.ofGlobal id)) }

def escapeScope (current : ScopeRef) (scope : Field Place) : Run Answer := do
  let s ← scopeOperand current scope
  let d ← orRaise ((← engine).escape s)
  return {
    reply := .many [.scope ((← get).view (.durable d)), .flag d.isSnapshot]
    result := some (.scope (.durable d)) }

def enclosingScope (current : ScopeRef) (scope : Field Place) : Run Answer := do
  let d ← durableOperand current scope
  match (← store).enclosing? d with
  | none => return { reply := .nothing }
  | some d =>
    return {
      reply := .many [.scope ((← get).view (.durable d)), .kind ((← store).kind? d)]
      result := some (.scope (.durable d)) }

def inspectScope (current : ScopeRef) (scope : Field Place) : Run Answer := do
  let s ← scopeOperand current scope
  return {
    reply := .many [.scope ((← get).view s), .flag s.isPooled]
    result := some (.scope s) }

def freeScope (current : ScopeRef) (scope : Field Place) : Run Answer := do
  let s ← scopeOperand current scope
  return { reply := .flag (← onFrame fun f => f.freeScope s) }

/-- The slots of a scope; a global scope has none. -/
def membersOf (s : ScopeRef) : Run FrozenMembers := do
  match s with
  | .pooled k => return (← orRaise ((← engine).scopeTable k)).freeze
  | .durable ⟨f :: _, _⟩ => return f.members
  | .durable ⟨[], .heap id⟩ =>
    match (← store).heaps[id]? with
    | some h => return h.members.freeze
    | none => bad .register
  | .durable ⟨[], .global _⟩ => bad .register

def listMembers (current : ScopeRef) (scope : Field Place) : Run Answer := do
  let m ← membersOf (← scopeOperand current scope)
  return { reply := .members m, result := some (.members m) }

end Perform

end ScriptCore
