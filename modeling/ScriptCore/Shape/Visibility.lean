import ScriptCore.Shape.Basic

/-!
# Shapes by visibility

A lexical construct has up to three shapes: one over all its members, one over those others may
see, and one over its private ones. Each is made when it is first asked for and shared from then on,
so a shape set only holds references.
-/

namespace ScriptCore

/-- The members a shape covers. -/
inductive Visibility where
  | all
  | publicProtected
  | privateOnly
  deriving DecidableEq

namespace Visibility

def partitions : List Visibility := [.all, .publicProtected, .privateOnly]

def display : Visibility → String
  | .all => "all"
  | .publicProtected => "public/protected"
  | .privateOnly => "private"

def debug : Visibility → String
  | .all => "All"
  | .publicProtected => "PublicProtected"
  | .privateOnly => "Private"

end Visibility

/-- The position of a shared shape. -/
abbrev ShapeId := Nat

/-- The shapes of one construct that were asked for so far. -/
structure ShapeSet where
  all : Option ShapeId := none
  publicProtected : Option ShapeId := none
  privateOnly : Option ShapeId := none
  deriving DecidableEq

namespace ShapeSet

def empty : ShapeSet := {}

def get? (s : ShapeSet) : Visibility → Option ShapeId
  | .all => s.all
  | .publicProtected => s.publicProtected
  | .privateOnly => s.privateOnly

def set (s : ShapeSet) (v : Visibility) (id : ShapeId) : ShapeSet :=
  match v with
  | .all => { s with all := some id }
  | .publicProtected => { s with publicProtected := some id }
  | .privateOnly => { s with privateOnly := some id }

/-- The sizes of the shapes that exist, by visibility. -/
def debug (s : ShapeSet) (size : ShapeId → Nat) : String :=
  let shown := Visibility.partitions.filterMap fun v =>
    (s.get? v).map fun id => v.debug ++ ": " ++ toString (size id)
  "\x7b" ++ String.intercalate ", " shown ++ "\x7d"

end ShapeSet

/-- Shared shapes, by position. -/
abbrev Shapes := Array Shape

namespace Shapes

/-- The shape of a visibility, made by `fresh` if the set has none yet. -/
def obtain (shapes : Shapes) (set : ShapeSet) (v : Visibility) (fresh : Shape) :
    ShapeId × ShapeSet × Shapes :=
  match set.get? v with
  | some id => (id, set, shapes)
  | none => (shapes.size, set.set v shapes.size, shapes.push fresh)

end Shapes

end ScriptCore
