/-!
# The controller

The robot reads a game controller: four buttons and four thumbstick axes. A button counts as pressed
until it is read, so that each press is seen once, while an axis keeps its deflection until it is
set again. In the other direction two landmark flags report what the robot sees.
-/
namespace MotionScript

structure ControllerInput where
  a : Int32 := 0
  b : Int32 := 0
  x : Int32 := 0
  y : Int32 := 0
  leftX : Int32 := 0
  leftY : Int32 := 0
  rightX : Int32 := 0
  rightY : Int32 := 0
  deriving DecidableEq, Inhabited

structure StickFrame where
  leftX : Int32 := 0
  leftY : Int32 := 0
  rightX : Int32 := 0
  rightY : Int32 := 0
  deriving DecidableEq, Inhabited

namespace ControllerInput

def axes (i : ControllerInput) : StickFrame := ⟨i.leftX, i.leftY, i.rightX, i.rightY⟩

def setAxes (i : ControllerInput) (frame : StickFrame) : ControllerInput :=
  { i with
    leftX := frame.leftX, leftY := frame.leftY, rightX := frame.rightX, rightY := frame.rightY }

def clearButtons (i : ControllerInput) : ControllerInput :=
  { i with a := 0, b := 0, x := 0, y := 0 }

def zeroAxes (i : ControllerInput) : ControllerInput := i.setAxes {}

def axesAreNeutral (i : ControllerInput) : Bool := i.axes == {}

@[simp] theorem axes_setAxes (i : ControllerInput) (frame : StickFrame) :
    (i.setAxes frame).axes = frame := rfl

@[simp] theorem axes_clearButtons (i : ControllerInput) : i.clearButtons.axes = i.axes := rfl

@[simp] theorem axes_zeroAxes (i : ControllerInput) : i.zeroAxes.axes = {} := rfl

end ControllerInput

/-- Whether a face is seen, and whether a landmark is near. -/
structure Landmarks where
  face : Bool := false
  near : Bool := false
  deriving DecidableEq, Inhabited, Repr

/-- The flags for two signals of the sensors: a signal above zero raises its flag. -/
def Landmarks.ofSignals (face near : Float) : Landmarks := ⟨0 < face, 0 < near⟩

/-- What the program and the robot share. -/
structure Controller where
  input : ControllerInput := {}
  landmarks : Landmarks := {}
  deriving DecidableEq, Inhabited

/-- Reading gives the input and releases the buttons. -/
def Controller.read (c : Controller) : ControllerInput × Controller :=
  (c.input, { c with input := c.input.clearButtons })

def Controller.update (c : Controller) (change : ControllerInput → ControllerInput) : Controller :=
  { c with input := change c.input }

def Controller.report (c : Controller) (landmarks : Landmarks) : Controller := { c with landmarks }

end MotionScript
