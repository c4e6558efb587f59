import ScriptCore.Function

/-!
# Texts of values

The display text is what a script would print; the debug text also tells the kind of each value.
Both write inexact numbers in the plain layout. A function is described by what it was made from, so
the texts depend on the functions made so far, and what is displayed also on the names of symbols.
-/

namespace ScriptCore

namespace Functions

def display (names : Interner) (fs : Functions) (id : FunctionId) : String :=
  (fs[id]?.map (Function.display names)).getD "<function>"

def debug (fs : Functions) (id : FunctionId) : String :=
  (fs[id]?.map Function.debug).getD ""

end Functions

namespace Value

mutual

def display (names : Interner) (fs : Functions) : Value → String
  | .undefined => "(undefined)"
  | .null => "(null)"
  | .bool b => Text.boolean b
  | .int n => toString n.toInt
  | .float x => x.text .plain
  | .str s => s
  | .array items => Text.bracketed (displayAll names fs items)
  | .function id => fs.display names id

def displayAll (names : Interner) (fs : Functions) : List Value → List String
  | [] => []
  | v :: vs => display names fs v :: displayAll names fs vs

end

mutual

def debug (fs : Functions) : Value → String
  | .undefined => "Undefined"
  | .null => "Null"
  | .bool b => "Bool(" ++ Text.boolean b ++ ")"
  | .int n => "Int(" ++ toString n.toInt ++ ")"
  | .float x => "Float(" ++ x.text .plain ++ ")"
  | .str s => "Str(" ++ Text.quote s ++ ")"
  | .array items => "Array(" ++ Text.bracketed (debugAll fs items) ++ ")"
  | .function id => "Function(" ++ fs.debug id ++ ")"

def debugAll (fs : Functions) : List Value → List String
  | [] => []
  | v :: vs => debug fs v :: debugAll fs vs

end

end Value

namespace Slot

def debug (fs : Functions) (s : Slot) : String :=
  Text.record "Slot"
    [("attrs", Text.optional (s.attributes.map Attributes.debug)),
     ("value", s.value.debug fs), ("sealed", Text.boolean s.isSealed)] false

end Slot

namespace MemberTable

/-- The values in slot order. -/
def debug (fs : Functions) (t : MemberTable) : String :=
  Text.bracketed (t.slots.toList.map fun s => s.value.debug fs)

end MemberTable

namespace FrozenMembers

def debug (fs : Functions) (m : FrozenMembers) : String :=
  Text.bracketed (m.slots.toList.map fun s => s.value.debug fs)

end FrozenMembers

end ScriptCore
