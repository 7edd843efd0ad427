import MotionScript.Graph.Payload
import MotionScript.Json.Shape

/-!
# Payloads in JSON

How kinds, motions, vectors, conditions and payloads are written and read. Only the kind of a
payload must be given.
-/
namespace MotionScript
open Json

private def byName {α : Type} (name : α → String) (values : List α) : List (String × α) :=
  values.map fun v => (name v, v)

namespace NodeKind

def all : List NodeKind :=
  [.root, .once, .untilNear, .whileLoop, .doWhileLoop, .conditional, .speech]

def toJson (kind : NodeKind) : Json := .ofText kind.name

def ofJson? (gathered : Bool) (value : Json) : Option NodeKind :=
  named? gathered (byName name all) value

end NodeKind

namespace Motion

def all : List Motion := [.forward, .backward, .left, .right, .up, .down, .gripper]

def toJson (motion : Motion) : Json := .ofText motion.name

def ofJson? (gathered : Bool) (value : Json) : Option Motion :=
  named? gathered (byName name all) value

end Motion

namespace Sense

def toJson (sense : Sense) : Json := .ofText sense.name

def ofJson? (gathered : Bool) (value : Json) : Option Sense :=
  named? gathered (byName name [.unlinked]) value

end Sense

namespace MotionParams

def toJson (p : MotionParams) : Json :=
  .object [(pieces "dx", ofFloat p.dx), (pieces "dy", ofFloat p.dy), (pieces "dz", ofFloat p.dz),
    (pieces "velocity", ofFloat p.velocity)]

def ofJson? (value : Json) : Option MotionParams := do
  match ← fields? ["dx", "dy", "dz", "velocity"] value with
  | [some dx, some dy, some dz, some velocity] =>
    return {
      dx := ← asFloat? dx, dy := ← asFloat? dy, dz := ← asFloat? dz,
      velocity := ← asFloat? velocity }
  | _ => none

end MotionParams

namespace Payload

def members (p : Payload) : List (List Piece × Json) :=
  [(pieces "kind", p.kind.toJson), (pieces "action", (p.motion.map Motion.toJson).getD .null),
   (pieces "params", p.params.toJson), (pieces "sense", (p.sense.map Sense.toJson).getD .null),
   (pieces "say", (p.speech.map ofText).getD .null)]

def toJson (p : Payload) : Json := .object p.members

def ofJson? (gathered : Bool) (value : Json) : Option Payload := do
  match ← fields? ["kind", "action", "params", "sense", "say"] value with
  | [some kind, motion, params, sense, speech] =>
    return {
      kind := ← NodeKind.ofJson? gathered kind
      motion := ← fieldOr? none (optional? (Motion.ofJson? gathered)) motion
      params := ← fieldOr? {} MotionParams.ofJson? params
      sense := ← fieldOr? none (optional? (Sense.ofJson? gathered)) sense
      speech := ← fieldOr? none (optional? asText?) speech }
  | _ => none

end Payload
end MotionScript
