import ScriptCore.Config
import ScriptCore.Error

/-!
# Programs

A program drives a frame: it allocates scopes, declares and looks up names, evaluates nodes and
calls functions, and keeps intermediate results in named registers. Programs are data. An operand
that could not be read is kept as the fault it is, because a fault only counts when the operation
reaches that operand: operands are resolved in order and the first failure wins.
-/

namespace ScriptCore

/-- Why an operation could not be carried out as written. -/
inductive Fault where
  | register
  | symbol
  | value
  | node
  | attributes
  | operation
  /-- The operand of this name is missing or of the wrong kind. -/
  | operand (name : String)
  deriving DecidableEq

namespace Fault

def what : Fault → String
  | .register => "register"
  | .symbol => "symbol"
  | .value => "value"
  | .node => "node"
  | .attributes => "attrs"
  | .operation => "do"
  | .operand name => name

end Fault

/-- An operand as it was read. -/
abbrev Field (α : Type) := Except Fault α

/-- Where an operation takes a scope from. -/
inductive Place where
  | current
  | global
  | named (register : String)

/-- An expression is a value, a register, or is computed from the current scope. -/
inductive Expr where
  | literal (v : Value)
  /-- A text written out a number of times. -/
  | repeated (text : String) (count : Nat)
  | register (name : String)
  /-- The value of the member a symbol resolves to in the current scope. -/
  | member (s : Field Symbol)
  /-- The sum of the integers among the terms; anything else counts as zero. -/
  | sum (terms : List Expr)
  | array (items : List Expr)
  | fault (f : Fault)

/-- What is composed into a scope. -/
inductive MixinOperand where
  | scope (p : Field Place)
  | fixed (members : Field (List (Field Symbol × Expr)))

/-- What a debug text is asked of. -/
inductive DebugTarget where
  | currentScope
  | frame
  | register (name : String)

/-- How a list of instructions is ended. -/
inductive Ending where
  | normal (v : Expr)
  | returned (v : Expr)
  | broke
  | continued

/-- How the arguments of a call are given. -/
inductive Arguments where
  | table (register : Field String)
  | values (items : Field (List Expr))

/-- Operations that run no instructions of their own. -/
inductive Action where
  | throw (v : Expr)
  | rethrow (err : Field String)
  | panic
  | makeShape (capacity : Field (Option Nat)) (load : Field (Option Binary64))
      (symbols : Field (List (Field Symbol)))
  | createSlot (shape : Field String) (s : Field Symbol)
  | findSlot (shape : Field String) (s : Field Symbol)
  | inspectShape (shape : Field String)
  | nodeShape (node : Field String) (v : Visibility)
  | allocateBlock (previous : Field Place) (shape : Field (Option String))
  | allocateFunction (previous : Field Place) (function : Field String)
      (shape : Field (Option String)) (this super : Option Expr) (table : Field String)
  | heapBlock (previous : Field Place) (shape : Field (Option String))
  | heapFunction (previous : Field Place) (this super : Option Expr) (table : Option (Field String))
      (function : Field String) (shape : Field (Option String))
  | newGlobal
  | escape (scope : Field Place)
  | enclosing (scope : Field Place)
  | inspectScope (scope : Field Place)
  | freeScope (scope : Field Place)
  | members (scope : Field Place)
  | declare (scope : Field Place) (s : Field Symbol) (a : Field Attributes)
  | bind (scope : Field Place) (s : Field Symbol) (a : Field Attributes) (v : Expr)
  | lookup (scope : Field Place) (s : Field Symbol)
  | load (slot : Field String)
  | store (v : Expr) (slot : Field String)
  | get (scope : Field Place) (s : Field Symbol)
  | set (scope : Field Place) (s : Field Symbol) (v : Expr)
  | symbols (scope : Field Place) (includePrivate : Bool)
  | this (scope : Field Place)
  | super (scope : Field Place)
  | callee (scope : Field Place)
  | mixin (scope : Field Place) (source : MixinOperand)
  | sourceGet (scope : Field Place) (s : Field Symbol)
  | sourceSet (v : Expr) (scope : Field Place) (s : Field Symbol)
  | sourceSymbols (scope : Field Place) (includePrivate : Bool)
  | define (scope : Field Place) (s : Field Symbol) (v : Expr)
  | globalGet (scope : Field Place) (s : Field Symbol)
  | globalSize (scope : Field Place)
  | allocateTable (size : Field Nat)
  | ownTable (minCapacity : Field (Option Nat))
  | freeTable (table : Field String)
  | takeTable (table : Field String)
  | push (vs : Field (List Expr)) (table : Field String)
  | reference (i : Field Nat) (table : Field String)
  | slotAt (i : Field Nat) (table : Field String)
  | declareAt (i : Field Nat) (a : Field Attributes) (table : Field String)
  | assignAt (i : Field Nat) (v : Expr) (table : Field String)
  | clearAt (i : Field Nat) (table : Field String)
  | ensureRoom (n : Field Nat) (table : Field String)
  | resetTable (table : Field String)
  | inspectTable (table : Field String)
  | copyTable (table : Field String)
  | equalTables (x y : Field String)
  | memberAt (members : Field String) (i : Field Nat)
  | memberArray (members : Field String)
  | equalMembers (x y : Field String)
  | makeFunction (node : Field String) (name : Option (Field Symbol))
      (overridden : Option (Field String)) (closure : Option (Field Place)) (encloses : Bool)
  | evaluate (v : Expr)
  | present (v : Expr)
  | equal (a b : Expr)
  | setLine (line : Field UInt32)
  | setLineAt (scope : Field Place) (line : Field UInt32)
  | config
  | isProcessGlobal
  | resetFrame
  | handle
  | terminate (handle : Option (Field String))
  | info
  | trace
  | inspectTrace (trace : Field String)
  | traceScope (trace : Field String) (i : Field Nat)
  | inspectError (err : Field String)
  | errorTrace (err : Field String)
  | attachTrace (trace : Option (Field String)) (err : Field String)
  | debug (x : Field DebugTarget)
  /-- An operation that could not be read. -/
  | malformed (f : Fault)

/-- What is common to all instructions: the word they are logged under, if they have one, the
register for the result, the register for an error, and whether a completion ends the list. -/
structure Tag where
  word : Option String
  into : Option String := none
  catching : Option String := none
  pass : Bool := false

/-- What a program says about a node, apart from its instructions. -/
structure NodeHeader where
  key : String
  name : Option Symbol := none
  file : Option String := none
  params : List Symbol := []
  quiet : Bool := false

mutual

/-- An instruction of a frame program. -/
inductive Instr where
  | act (tag : Tag) (a : Action)
  | finish (tag : Tag) (ending : Ending)
  | ite (tag : Tag) (a b : Expr) (thenList elseList : List Instr)
  | loop (tag : Tag) (n : Field Nat) (body : List Instr)
  | eval (tag : Tag) (scope : Field Place) (node : Field String)
  /-- Calls the function in a register, or the one whose activation encloses a scope. -/
  | call (tag : Tag) (callee : Field String ⊕ Field Place) (this super : Option Expr)
      (arguments : Arguments)
  | registry (tag : Tag) (ops : List RegistryInstr)

/-- An operation on the frames of threads. -/
inductive RegistryInstr where
  /-- Runs instructions on the frame of the thread. -/
  | within (ops : List Instr)
  | install (config : Field FrameConfig) (onProcessGlobal terminated : Bool)
  | remove
  | forget
  | terminate
  | terminateParent
  | registered
  /-- Runs operations on a new thread and waits for its end. -/
  | peer (nodes : List (NodeHeader × List Instr)) (ops : List RegistryInstr)
  /-- An operation that could not be read. -/
  | malformed (word : Option String) (f : Fault)

end

namespace RegistryInstr

/-- The word an operation is logged under. -/
def word : RegistryInstr → Option String
  | .within _ => "with"
  | .install _ _ _ => "install"
  | .remove => "remove"
  | .forget => "reset"
  | .terminate => "terminate"
  | .terminateParent => "terminate_parent"
  | .registered => "registered"
  | .peer _ _ => "peer"
  | .malformed w _ => w

end RegistryInstr

/-- The nodes of a program with their instructions. -/
abbrev NodeDecls := List (NodeHeader × List Instr)

/-! ## How deep threads start threads -/

mutual

def Instr.threadDepth : Instr → Nat
  | .ite _ _ _ t e => max (listThreadDepth t) (listThreadDepth e)
  | .loop _ _ body => listThreadDepth body
  | .registry _ ops => registryThreadDepth ops
  | _ => 0

def listThreadDepth : List Instr → Nat
  | [] => 0
  | i :: rest => max i.threadDepth (listThreadDepth rest)

def RegistryInstr.threadDepth : RegistryInstr → Nat
  | .within ops => listThreadDepth ops
  | .peer nodes ops => 1 + max (nodesThreadDepth nodes) (registryThreadDepth ops)
  | _ => 0

def registryThreadDepth : List RegistryInstr → Nat
  | [] => 0
  | i :: rest => max i.threadDepth (registryThreadDepth rest)

def nodesThreadDepth : List (NodeHeader × List Instr) → Nat
  | [] => 0
  | n :: rest => max (nodeThreadDepth n) (nodesThreadDepth rest)

def nodeThreadDepth : NodeHeader × List Instr → Nat
  | (_, body) => listThreadDepth body

end

end ScriptCore
