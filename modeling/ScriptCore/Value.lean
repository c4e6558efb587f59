import ScriptCore.Binary64

/-!
# Values

What a slot can hold. A function is known by the position at which it was made, so functions are
equal only to themselves; everything else is compared by content, inexact numbers numerically.
Values never refer to recycled storage.
-/

namespace ScriptCore

/-- The position at which a function was made. -/
abbrev FunctionId := Nat

inductive Value where
  | undefined
  | null
  | bool (b : Bool)
  | int (n : Int64)
  | float (x : Binary64)
  | str (s : String)
  | array (items : List Value)
  | function (id : FunctionId)
  deriving Inhabited

namespace Value

def isUndefined : Value → Bool
  | .undefined => true
  | _ => false

def isFunction : Value → Bool
  | .function _ => true
  | _ => false

def asInt? : Value → Option Int64
  | .int n => some n
  | _ => none

/-- What kind of value it is, in words. -/
def typeName : Value → String
  | .undefined => "undefined"
  | .null => "null"
  | .bool _ => "boolean"
  | .int _ => "exact number"
  | .float _ => "inexact number"
  | .str _ => "string"
  | .array _ => "array"
  | .function _ => "function"

mutual

/-- Equality as scripts see it. It is not reflexive: not-a-number differs from itself, also inside
an array. -/
def equal : Value → Value → Bool
  | .undefined, .undefined => true
  | .null, .null => true
  | .bool a, .bool b => a == b
  | .int a, .int b => a == b
  | .float a, .float b => a.equal b
  | .str a, .str b => a == b
  | .array a, .array b => equalAll a b
  | .function a, .function b => a == b
  | _, _ => false

def equalAll : List Value → List Value → Bool
  | [], [] => true
  | a :: as, b :: bs => equal a b && equalAll as bs
  | _, _ => false

end

end Value

end ScriptCore
