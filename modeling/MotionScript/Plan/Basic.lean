import MotionScript.Graph.Traversal
import MotionScript.Failure

/-!
# Plans

A plan is a recorded program cut out of its graph: the nodes that can be reached from an entry, in
depth-first order, named by their place in the plan. `capture` makes one. `check` accepts a plan
exactly when it has the version of this library and at least one node, the entry has no owner, every
other node is owned by a node that lists it, every index is in range, ownership has no cycle, and no
node is a root; it reports the first fault it meets.
-/
namespace MotionScript

structure PlanNode where
  payload : Payload
  owner : Option Nat := none
  children : List Nat := []

structure Plan where
  version : Nat
  nodes : List PlanNode

namespace Plan

/-- The version of plans that this library writes and accepts. -/
def currentVersion : Nat := 1

/-- Cuts out what can be reached from a node. The entry has no owner, and owners and children
outside of the plan are left out. -/
def capture (g : Graph) (entry : NodeId) : Plan where
  version := currentVersion
  nodes :=
    let order := g.reachable entry
    order.filterMap fun id => (g.node? id).map fun node => {
      payload := node.payload
      owner := if id = entry then none else node.owner.bind order.idxOf?
      children := node.children.filterMap order.idxOf? }

/-- Accepts or refuses a node for what it says of its neighbours. -/
def checkNode (p : Plan) (index : Nat) (node : PlanNode) : Except PlanFault Unit :=
  if node.payload.kind = .root then .error (.rootNode index)
  else
    match node.children.find? (p.nodes.length ≤ ·) with
    | some child => .error (.missingChild index child)
    | none =>
      if index = 0 then .ok ()
      else
        match node.owner with
        | none => .error (.noOwner index)
        | some owner =>
          match p.nodes[owner]? with
          | some parent =>
            if index ∈ parent.children then .ok () else .error (.inconsistentOwner index owner)
          | none => .error (.inconsistentOwner index owner)

def checkNodes (p : Plan) : Nat → List PlanNode → Except PlanFault Unit
  | _, [] => .ok ()
  | index, node :: rest => (p.checkNode index node).bind fun _ => p.checkNodes (index + 1) rest

/-- Whether the chain of owners from a node ends within a number of steps. -/
def ownersEnd (p : Plan) : Nat → Nat → Bool
  | steps, index =>
    match p.nodes[index]?.bind PlanNode.owner with
    | none => true
    | some owner =>
      match steps with
      | 0 => false
      | steps + 1 => p.ownersEnd steps owner

/-- Accepts a plan whose nodes after the entry have chains of owners no longer than the plan. -/
def checkChains (p : Plan) : Except PlanFault Unit :=
  match (List.range p.nodes.length).find? fun index =>
      index ≠ 0 && !p.ownersEnd p.nodes.length index with
  | some index => .error (.ownershipCycle index)
  | none => .ok ()

def check (p : Plan) : Except PlanFault Unit :=
  if p.version ≠ currentVersion then .error (.version p.version currentVersion)
  else
    match p.nodes with
    | [] => .error .noNodes
    | entry :: _ =>
      if entry.owner.isSome then .error .ownedEntry
      else (p.checkNodes 0 p.nodes).bind fun _ => p.checkChains

def validate (p : Plan) : Except Failure Unit :=
  p.check.mapError fun fault => .persistence (.invalid fault)

end Plan
end MotionScript
