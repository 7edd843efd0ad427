import MotionScript.Json.Value

/-!
# Members in the order of their keys

A value for other programs has the members of its objects in the order of their keys, at every
level.
-/
namespace MotionScript.Json

def keyLe (a b : List Piece × Json) : Bool := (text? a.1).getD "" ≤ (text? b.1).getD ""

mutual

def sorted : Json → Json
  | .array items => .array (sortedItems items)
  | .object members => .object ((sortedMembers members).mergeSort keyLe)
  | value => value

def sortedItems : List Json → List Json
  | [] => []
  | item :: rest => sorted item :: sortedItems rest

def sortedMembers : List (List Piece × Json) → List (List Piece × Json)
  | [] => []
  | (key, value) :: rest => (key, sorted value) :: sortedMembers rest

end

end MotionScript.Json
