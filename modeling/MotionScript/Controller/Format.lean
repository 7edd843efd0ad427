import MotionScript.Controller
import MotionScript.Json.Shape

/-! # The controller input in JSON -/
namespace MotionScript.ControllerInput
open Json

def fieldNames : List String :=
  ["A", "B", "X", "Y", "left_thumbstick_x", "left_thumbstick_y", "right_thumbstick_x",
    "right_thumbstick_y"]

def values (i : ControllerInput) : List Int32 :=
  [i.a, i.b, i.x, i.y, i.leftX, i.leftY, i.rightX, i.rightY]

def toJson (i : ControllerInput) : Json :=
  .object ((fieldNames.zip i.values).map fun (name, value) => (pieces name, ofInt value.toInt))

def ofJson? (value : Json) : Option ControllerInput := do
  match ← (← fields? fieldNames value).mapM (· >>= asInt32?) with
  | [a, b, x, y, leftX, leftY, rightX, rightY] =>
    return { a, b, x, y, leftX, leftY, rightX, rightY }
  | _ => none

end MotionScript.ControllerInput
