import MotionScript.Actuation
import MotionScript.Execution.Turn

/-!
# Drives

A drive holds the sticks for a number of frames and then releases them. Each frame is written to the
controller, published, and followed by a rest of one frame interval. A cancel cuts the drive short:
it is noticed before each frame and while the drive sleeps, and the sticks stay as they are.
-/
namespace MotionScript

structure Drive where
  node : NodeId
  frame : StickFrame
  /-- The frames still to be written. -/
  left : Nat
  /-- The frames written so far. -/
  written : Nat := 0
  /-- Whether the drive wakes from a sleep, which a cancel ends at once. -/
  asleep : Bool := false
  deriving DecidableEq

/-- One turn of a drive, which ends with the number of frames written, or with nothing when it is
cut short. -/
def Drive.turn (interval : Nat) : Activity Drive (Option Nat) := fun d s =>
  if d.asleep && s.cancelled then { surroundings := s, move := .ended none }
  else
    match d.left with
    | 0 =>
      { events := [.axesReleased d.node]
        surroundings := { s with controller := s.controller.update ControllerInput.zeroAxes }
        move := .ended (some d.written) }
    | left + 1 =>
      if s.cancelled then { surroundings := s, move := .ended none }
      else
        let controller := s.controller.update (·.setAxes d.frame)
        { events := [.frame d.node controller.input]
          surroundings := { s with controller }
          move := .rest interval
            { d with left, written := d.written + 1, asleep := interval != 0 } }

def pressGripper (node : NodeId) (s : Surroundings) : List Event × Surroundings :=
  let controller := s.controller.update ({ · with y := 1 })
  ([.frame node controller.input], { s with controller })

end MotionScript
