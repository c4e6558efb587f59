import ScriptCore.Trace
import ScriptCore.Value.Text

/-!
# Errors and completions

A node finishes with a completion or with an error. Errors fall into four categories, and only
script errors can be caught by a script. A trace is attached to an error once: a second one does
not replace it.
-/

namespace ScriptCore

/-- How a node finished. -/
inductive Completion where
  | normal (v : Value)
  | returned (v : Value)
  | broke
  | continued

namespace Completion

/-- The value it carries; a loop signal carries the undefined value. -/
def value : Completion → Value
  | .normal v => v
  | .returned v => v
  | .broke => .undefined
  | .continued => .undefined

def isNormal : Completion → Bool
  | .normal _ => true
  | _ => false

/-- What a function call makes of the completion of its body. -/
def ofCall : Completion → Completion
  | .returned v => .normal v
  | c => c

def debug (fs : Functions) : Completion → String
  | .normal v => "Normal(" ++ v.debug fs ++ ")"
  | .returned v => "Return(" ++ v.debug fs ++ ")"
  | .broke => "Break"
  | .continued => "Continue"

end Completion

/-- Who may observe an error. -/
inductive ErrorCategory where
  | script
  | resourceExhaustion
  | internalInvariantViolation
  | cancellation
  deriving DecidableEq

/-- What a stale key was meant to reach. -/
inductive Pooled where
  | scope
  | memberTable
  deriving DecidableEq

namespace Pooled

def text : Pooled → String
  | .scope => "scope"
  | .memberTable => "member table"

end Pooled

inductive ErrorKind where
  | thrown (value : Value)
  | noSuchMember (symbol : Symbol)
  | duplicateDeclaration (symbol : Symbol)
  | constReassignment (symbol : Symbol)
  | undefinedAssignment (symbol : Symbol)
  | noThis
  | noSuper
  | noCallee
  | stackOverflow (depth limit : Nat)
  | staleHandle (what : Pooled)
  | durableMutation (symbol : Option Symbol)
  | frameBusy
  | cancelled

namespace ErrorKind

def category : ErrorKind → ErrorCategory
  | .stackOverflow _ _ => .resourceExhaustion
  | .staleHandle _ | .durableMutation _ | .frameBusy => .internalInvariantViolation
  | .cancelled => .cancellation
  | _ => .script

def message (names : Interner) (fs : Functions) : ErrorKind → String
  | .thrown v => v.display names fs
  | .noSuchMember s => "no such member: " ++ names.label s
  | .duplicateDeclaration s => "duplicate declaration of constant: " ++ names.label s
  | .constReassignment s => "cannot assign value to constant: " ++ names.label s
  | .undefinedAssignment s => "cannot assign (undefined) to variable: " ++ names.label s
  | .noThis => "no this!"
  | .noSuper => "no super!"
  | .noCallee => "no callee!"
  | .stackOverflow depth limit =>
    "stack overflow: depth " ++ toString depth ++ " exceeds limit " ++ toString limit
  | .staleHandle what => "use of recycled pooled " ++ what.text
  | .durableMutation (some s) => "cannot modify escaped snapshot member: " ++ names.label s
  | .durableMutation none => "cannot modify escaped snapshot"
  | .frameBusy => "stack frame is already borrowed on this thread"
  | .cancelled => "thread terminated"

/-- The name of the error, by itself. -/
def name : ErrorKind → String
  | .thrown _ => "Thrown"
  | .noSuchMember _ => "NoSuchMember"
  | .duplicateDeclaration _ => "DuplicateDeclaration"
  | .constReassignment _ => "ConstReassignment"
  | .undefinedAssignment _ => "UndefinedAssignment"
  | .noThis => "NoThis"
  | .noSuper => "NoSuper"
  | .noCallee => "NoCallee"
  | .stackOverflow _ _ => "StackOverflow"
  | .staleHandle _ => "StaleHandle"
  | .durableMutation _ => "DurableMutation"
  | .frameBusy => "FrameBusy"
  | .cancelled => "Cancelled"

/-- What the error says beside its name. -/
def details (fs : Functions) : ErrorKind → List (String × String)
  | .thrown v => [("value", v.debug fs)]
  | .noSuchMember s | .duplicateDeclaration s | .constReassignment s | .undefinedAssignment s =>
    [("symbol", s.debug)]
  | .stackOverflow depth limit => [("depth", toString depth), ("limit", toString limit)]
  | .staleHandle what => [("what", Text.quote what.text)]
  | .durableMutation s => [("symbol", Text.optional (s.map Symbol.debug))]
  | _ => []

def debug (fs : Functions) (k : ErrorKind) : String :=
  if (k.details fs).isEmpty then k.name else Text.record k.name (k.details fs) false

/-- The error of a refused assignment to a symbol. -/
def ofAssign (s : Symbol) : AssignError → ErrorKind
  | .isConst => .constReassignment s
  | .isUndefined => .undefinedAssignment s

end ErrorKind

/-- An error, with the trace of the place it left its activation from. -/
structure EvalError where
  kind : ErrorKind
  trace : Option Trace := none

instance : Coe ErrorKind EvalError := ⟨fun kind => { kind }⟩

namespace EvalError

def category (e : EvalError) : ErrorCategory := e.kind.category

/-- A script may catch it. A cancellation is not among these, so that no script can outlive it. -/
def isCatchable (e : EvalError) : Bool := e.category == .script

/-- The gate it passes next attaches a trace. -/
def needsTrace (e : EvalError) : Bool := e.isCatchable && e.trace.isNone

/-- Attaches a trace, unless there is one. -/
def withTrace (e : EvalError) (t : Trace) : EvalError := { e with trace := some (e.trace.getD t) }

def thrown? (e : EvalError) : Option Value :=
  match e.kind with
  | .thrown v => some v
  | _ => none

/-- The message, followed by the trace if there is one. -/
def message (names : Interner) (fs : Functions) (e : EvalError) : String :=
  match e.trace with
  | some t => e.kind.message names fs ++ "\n" ++ t.text names
  | none => e.kind.message names fs

def debug (names : Interner) (fs : Functions) (e : EvalError) : String :=
  Text.record "EvalError"
    [("kind", e.kind.debug fs), ("frames", Text.optional (e.trace.map (Trace.debug names)))] false

end EvalError

/-- How an operation that can be cut short ended. A panic is no error: nothing catches it on the way
out, and it carries nothing. -/
inductive Outcome (α : Type) where
  | done (a : α)
  | raised (e : EvalError)
  | panicked

namespace Outcome

variable {α β : Type}

def map (f : α → β) : Outcome α → Outcome β
  | .done a => .done (f a)
  | .raised e => .raised e
  | .panicked => .panicked

def ofExcept : Except EvalError α → Outcome α
  | .ok a => .done a
  | .error e => .raised e

end Outcome

end ScriptCore
