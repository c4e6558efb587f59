import ScriptCore.Interner

/-!
# Nodes

A node is an executable piece of a program: a function body, a block, a list of statements. Only
what a stack trace says about it is kept here; its instructions and its shapes are found by its id.
-/

namespace ScriptCore

abbrev NodeId := Nat

/-- A node as the call gate knows it. -/
structure Node where
  id : NodeId
  name : Option Symbol := none
  file : Option String := none
  deriving DecidableEq

namespace Node

/-- The line of a stack trace for a node: its name with file and line in brackets, or only these
when it has none. -/
def location (names : Interner) (n : Node) (line : UInt32) : String :=
  let place := n.file.getD "<unknown>" ++ ":" ++ toString line.toNat
  match n.name with
  | some s => names.label s ++ " (" ++ place ++ ")"
  | none => place

end Node

end ScriptCore
