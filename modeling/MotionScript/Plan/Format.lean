import MotionScript.Graph.Format
import MotionScript.Json.Printer
import MotionScript.Json.Reader
import MotionScript.Plan.Basic

/-!
# The text of a plan

A plan is written as an object with its version and its nodes, over several lines. The fields of a
node's payload stand beside its owner and its children. In reading, the members of a node are
gathered before they are told apart, so even those that mean nothing must be readable; outside of
nodes, unknown members are skipped.
-/
namespace MotionScript
open Json

def PlanNode.indexBound : Nat := Nat.pow 2 64

def PlanNode.depthBound : Nat := 124

def PlanNode.toJson (node : PlanNode) : Json :=
  .object (node.payload.members ++
    [(pieces "owner", (node.owner.map ofNat).getD .null),
      (pieces "children", .array (node.children.map ofNat))])

def PlanNode.ofJson? : Json → Option PlanNode
  | .object members => do
    let owner ← lookup? (isNamed "owner") members
    let children ← lookup? (isNamed "children") members
    let gathered := members.filter fun (key, _) => !isNamed "owner" key && !isNamed "children" key
    if areMembersReadable depthBound gathered then
      return {
        payload := ← Payload.ofJson? true (.object gathered)
        owner := ← fieldOr? none (optional? (asNatBelow? indexBound)) owner
        children := ← fieldOr? []
          (fun value => do (← asArray? value).mapM (asNatBelow? indexBound)) children }
    else none
  | _ => none

namespace Plan

def versionBound : Nat := Nat.pow 2 32

def toJson (p : Plan) : Json :=
  .object [(pieces "version", ofNat p.version),
    (pieces "nodes", .array (p.nodes.map PlanNode.toJson))]

def ofJson? (value : Json) : Option Plan := do
  match ← fields? ["version", "nodes"] value with
  | [some version, some nodes] =>
    return {
      version := ← asNatBelow? versionBound version,
      nodes := ← (← asArray? nodes).mapM PlanNode.ofJson? }
  | _ => none

def write (p : Plan) : String := p.toJson.pretty

def read (text : String) : Except Failure Plan :=
  match (parse? text).bind ofJson? with
  | some p => .ok p
  | none => .error (.persistence .unreadableText)

end Plan
end MotionScript
