import MotionScript.Controller
import MotionScript.Motion

/-!
# From motions to the controller

The gripper is one press of a button. Every other motion is a drive: the sticks are held for a
number of frames, which is the distance divided by the velocity, rounded to the nearest whole
number, and each stick is pushed in the direction of its axis by the velocity times a scale. A
velocity that is not a positive finite number gives no frames.
-/
namespace MotionScript
open Number

/-- What a motion asks of the controller. -/
inductive Actuation
  | press
  /-- Hold the sticks for a number of frames, then release them. -/
  | drive (frames : Nat) (frame : StickFrame)
  deriving DecidableEq

namespace Actuation

/-- How far the sticks are pushed for one unit of velocity. -/
def defaultScale : Float := 10000

/-- No motion needs more frames than a 64-bit number counts. -/
def maxFrames : Nat := Nat.pow 2 64 - 1

def direction (x : Float) : Float := if 0 < x then 1 else if x < 0 then -1 else 0

/-- The sticks for a vector: left and right for x, forth and back for y, and the right stick for
z. -/
def sticks (scale : Float) (p : MotionParams) : StickFrame :=
  let push (distance : Float) : Int32 := truncate32 (direction distance * (scale * p.velocity))
  { leftX := push p.dx, leftY := push p.dy, rightX := 0, rightY := push p.dz }

def ofMotion (scale : Float) (motion : Motion) (p : MotionParams) : Actuation :=
  if motion = .gripper then .press
  else if isFinite p.velocity && 0 < p.velocity then
    .drive (roundUpTo maxFrames (p.travel / p.velocity)) (sticks scale p)
  else .drive 0 {}

end Actuation
end MotionScript
