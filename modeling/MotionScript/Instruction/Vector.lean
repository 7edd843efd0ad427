import MotionScript.Failure
import MotionScript.Instruction.Literal

/-!
# The vector of a motion

The first literal of a line is the distance, which the direction of the motion signs and places on
its axis. A line that mentions velocity gives it as the second literal; otherwise the velocity is
one. The gripper takes no numbers.
-/
namespace MotionScript

def Motion.params (motion : Motion) (line : String) : Except Failure MotionParams :=
  match motion.axis? with
  | none => .ok {}
  | some (axis, sign) =>
    match Literal.values line with
    | [] => .error (.malformed (.noDistance line motion))
    | distance :: rest =>
      let params := MotionParams.withAxis {} axis (sign * distance)
      if Text.occurs "velocity".toList line.toList then
        match rest with
        | [] => .error (.malformed (.noVelocity line))
        | velocity :: _ => .ok { params with velocity }
      else .ok params

end MotionScript
