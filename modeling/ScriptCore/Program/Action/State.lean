import ScriptCore.Program.Action.Scope
import ScriptCore.Program.Action.Value

/-!
# Actions on the frame and its traces

These only look at the frame, apart from the line number, which a terminated thread refuses to
set, and the termination flag itself.
-/

namespace ScriptCore

namespace Perform

open Run

def setLine (line : Field UInt32) : Run Answer := do
  let line ← ofField line
  orRaise (← onEngine fun e => e.setLine none line)
  return { reply := .ok }

def setLineAt (current : ScopeRef) (scope : Field Place) (line : Field UInt32) : Run Answer := do
  let scope ← scopeOperand current scope
  let line ← ofField line
  orRaise (← onEngine fun e => e.setLine (some scope) line)
  return { reply := .ok }

def terminationHandle : Run Answer := do
  let e ← engine
  return { reply := .flag e.isTerminated, result := some (.handle e.frame.flag) }

/-- Raises the flag a handle is for, and tells whether the frame itself is to stop. -/
def raiseTermination (h : Option (Field String)) : Run Answer := do
  let flag ← match h with
    | some name => handleOperand name
    | none => pure (← frame).flag
  onStore fun st => ((), st.raiseFlag flag)
  return { reply := .flag (← engine).isTerminated }

def inspectFrame : Run Answer := do
  let s ← get
  let f := s.engine.frame
  let top := f.top
  let frames := f.activations.filterMap fun (depth, e) =>
    e.node.map fun node => { node, line := e.line, depth, scope := e.scope.map s.view }
  return {
    reply := .info {
      depth := f.depth
      line := top.line
      scope := top.scope.map s.view
      node := top.node
      isTerminated := s.engine.isTerminated
      frames
      debug := f.debug } }

/-! ## Traces -/

def traceReply (t : Trace) : Run Reply := do
  let view := (← get).view
  return .trace (t.map fun r => (r, r.scope.map fun d => view (.durable d)))

def takeTrace : Run Answer := do
  let t := (← engine).trace
  return { reply := ← traceReply t, result := some (.trace t) }

def inspectTrace (t : Field String) : Run Answer := do
  return { reply := ← traceReply (← traceOperand t) }

def traceScope (t : Field String) (i : Field Nat) : Run Answer := do
  let t ← traceOperand t
  let i ← ofField i
  match t[i]? with
  | none => return { reply := .text "no record" }
  | some r =>
    match r.scope with
    | none => return { reply := .nothing }
    | some d => answerScope (.durable d)

def errorTrace (err : Field String) : Run Answer := do
  match (← errorOperand err).trace with
  | none => return { reply := .nothing }
  | some t => return { reply := ← traceReply t, result := some (.trace t) }

def attachTrace (t : Option (Field String)) (err : Field String) : Run Answer := do
  let t ← optionally traceOperand t
  let e := (← errorOperand err).withTrace (t.getD [])
  return { reply := .error e, result := some (.error e) }

def debugRegister (st : Store) : Register → String
  | .scope s => st.debugScopeRef s
  | .slot s => s.debug
  | .table k => Text.record "PooledTable" [("key", k.debug)] false
  | .owned t => t.debug st.functions
  | .members m => m.debug st.functions
  | .function f => st.functions.debug f
  | .value v => v.debug st.functions
  | .shape id => (st.shapes[id]?.getD .empty).debug
  | .error e => e.debug st.names st.functions
  | .trace t => t.debug st.names
  | .handle f => "TerminationHandle(" ++ Text.boolean (st.isRaised f) ++ ")"

def debugText (current : ScopeRef) (x : Field DebugTarget) : Run Answer := do
  match ← ofField x with
  | .currentScope => return { reply := .text ((← store).debugScopeRef current) }
  | .frame => return { reply := .text (← frame).debug }
  | .register name =>
    let (_, r) ← register (.ok name)
    return { reply := .text (debugRegister (← store) r) }

end Perform

end ScriptCore
