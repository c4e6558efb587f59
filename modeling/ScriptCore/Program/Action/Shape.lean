import ScriptCore.Program.Session

/-!
# Actions on shapes

A program may make shapes of its own or take the one that the activations of a node share. Both are
kept in registers and can be given to any number of scopes.
-/

namespace ScriptCore

namespace Perform

open Run

/-- Gives symbols their slots, one after the other. -/
def createAll (shape : Shape) : List (Field Symbol) → Run Shape
  | [] => return shape
  | s :: rest => do
    let s ← ofField s
    match shape.create s with
    | .ok (_, shape) => createAll shape rest
    | .error _ => panic

def makeShape (capacity : Field (Option Nat)) (load : Field (Option Binary64))
    (symbols : Field (List (Field Symbol))) : Run Answer := do
  let capacity ← ofField capacity
  let load ← ofField load
  let made :=
    if capacity.isNone && load.isNone then .ok Shape.empty
    else Shape.ofCapacity? (capacity.getD Shape.defaultCapacity) (load.getD Shape.defaultLoad)
  match made with
  | .error e => return { reply := .invalidLoad e }
  | .ok shape =>
    let shape ← createAll shape (← ofField symbols)
    let id ← onStore fun st => st.addShape shape
    return { reply := .many [.count shape.size, .count shape.capacity], result := some (.shape id) }

def createSlot (shape : Field String) (s : Field Symbol) : Run Answer := do
  let id ← shapeOperand shape
  let s ← ofField s
  match ← onStore fun st => st.createSlot id s with
  | .ok slot => return { reply := .count slot }
  | .error _ => panic

def findSlot (shape : Field String) (s : Field Symbol) : Run Answer := do
  let id ← shapeOperand shape
  let s ← ofField s
  match (← store).slotOf? id s with
  | some slot => return { reply := .count slot }
  | none => return { reply := .nothing }

def inspectShape (shape : Field String) : Run Answer := do
  let id ← shapeOperand shape
  let shape := (← store).shapes[id]?.getD .empty
  return { reply := .many [.count shape.size, .count shape.capacity, .symbols shape.symbols] }

def nodeShape (node : Field String) (v : Visibility) : Run Answer := do
  let node ← nodeOperand node
  let made := (← store).isNodeShapeMade node.id v
  let id ← onStore fun st => st.nodeShape node.id v
  let size := (← store).shapeSize id
  return { reply := .many [.flag made, .count size], result := some (.shape id) }

end Perform

end ScriptCore
