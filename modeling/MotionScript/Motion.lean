import MotionScript.Number.Shortest
import MotionScript.Text.Search

/-!
# Motions

The seven motions of the robot, the axes they move along, and the vector of a motion: a distance
along each axis and a velocity.
-/
namespace MotionScript

inductive Axis | x | y | z deriving DecidableEq, Repr

inductive Motion
  | forward | backward | left | right | up | down | gripper
  deriving DecidableEq, Repr

namespace Motion

def name : Motion → String
  | .forward => "Forward"
  | .backward => "Backward"
  | .left => "Left"
  | .right => "Right"
  | .up => "Up"
  | .down => "Down"
  | .gripper => "Gripper"

/-- The words that name motions, in the order in which they are looked for. -/
def keywords : List (String × Motion) :=
  [("forward", .forward), ("backward", .backward), ("right", .right), ("left", .left),
    ("up", .up), ("down", .down), ("gripper", .gripper)]

/-- The first motion in the order of `keywords` whose word stands in the text, also inside a longer
word. -/
def ofText? (text : String) : Option Motion :=
  (keywords.find? fun (word, _) => Text.occurs word.toList text.toList).map (·.2)

/-- The axis of a directional motion and the sign of its direction; the gripper has none. -/
def axis? : Motion → Option (Axis × Float)
  | .right => some (.x, 1)
  | .left => some (.x, -1)
  | .forward => some (.y, 1)
  | .backward => some (.y, -1)
  | .up => some (.z, 1)
  | .down => some (.z, -1)
  | .gripper => none

end Motion

structure MotionParams where
  dx : Float := 0
  dy : Float := 0
  dz : Float := 0
  velocity : Float := 1
  deriving Inhabited

namespace MotionParams

def withAxis (p : MotionParams) : Axis → Float → MotionParams
  | .x, distance => { p with dx := distance }
  | .y, distance => { p with dy := distance }
  | .z, distance => { p with dz := distance }

def travel (p : MotionParams) : Float := p.dx.abs + p.dy.abs + p.dz.abs

def text (p : MotionParams) : String :=
  "[" ++ ", ".intercalate ([p.dx, p.dy, p.dz, p.velocity].map Number.display) ++ "]"

end MotionParams
end MotionScript
