import MotionScript.Plan.Basic

/-!
# Building a graph

A builder records one instruction after the other. A new node becomes the next child of the cursor
and then is the cursor itself. Blocks that are still open wait on a stack. A loop tested first is
attached when it is opened and closed by an edge back to its header; a loop tested last keeps its
header apart, on the stack above the entry of its body, until it is closed; a conditional is closed
by a merge node that both branches reach. The innermost block is closed whatever its kind.
-/
namespace MotionScript

structure Builder where
  graph : Graph := .empty
  cursor : NodeId := Graph.root
  /-- The nodes that wait for the end of a block, the innermost first. -/
  pending : List NodeId := []

namespace Builder

/-- Attaches a new node at the cursor and moves onto it. -/
def append (b : Builder) (payload : Payload) : Builder :=
  let id := b.graph.nextId
  { b with graph := (b.graph.add payload).attach b.cursor id, cursor := id }

def openBlock (b : Builder) (kind : NodeKind) : Except Failure (NodeId × Builder) :=
  match kind with
  | .conditional | .whileLoop =>
    let b := b.append (.header kind)
    .ok (b.cursor, { b with pending := b.cursor :: b.pending })
  | .doWhileLoop =>
    let b := b.append .placeholder
    let header := b.graph.nextId
    .ok (header,
      { b with graph := b.graph.add (.header kind), pending := header :: b.cursor :: b.pending })
  | kind => .error (.malformed (.opensNoBlock kind))

/-- Closes the innermost block and gives its kind. -/
def closeBlock (b : Builder) : Except Failure (NodeKind × Builder) :=
  match b.pending with
  | [] => .error .unbalancedBlock
  | header :: outer =>
    match b.graph.kind? header with
    | some .doWhileLoop =>
      match outer with
      | [] => .error .unbalancedBlock
      | entry :: outer =>
        let graph := (b.graph.attach b.cursor header).attach header entry
        .ok (.doWhileLoop, { graph, cursor := header, pending := outer })
    | some .whileLoop =>
      .ok (.whileLoop,
        { graph := b.graph.attach b.cursor header, cursor := header, pending := outer })
    | some .conditional =>
      let merge := b.graph.nextId
      let graph := ((b.graph.add .placeholder).attach header merge).attach b.cursor merge
      .ok (.conditional, { graph, cursor := merge, pending := outer })
    | some kind => .error (.malformed (.noHeader kind))
    | none => .error .unbalancedBlock

def snapshot (b : Builder) : Except Failure Plan :=
  match b.graph.first? with
  | some first => .ok (.capture b.graph first)
  | none => .error .emptyGraph

/-- A node of a plan as it stands in a graph of the size given. -/
def shifted (base : Nat) (node : PlanNode) : Node where
  payload := node.payload
  owner := node.owner.map (base + ·)
  children := node.children.map (base + ·)

/-- Continues at the cursor with a plan and gives its entry. The nodes of the plan keep their order,
and the cursor moves to the tail of the entry. -/
def graft (b : Builder) (plan : Plan) : Except Failure (NodeId × Builder) :=
  match plan.validate with
  | .error failure => .error failure
  | .ok () =>
    let entry := b.graph.nextId
    let graph := plan.nodes.foldl (fun g node => g.push (shifted entry node)) b.graph
    let graph := graph.attach b.cursor entry
    .ok (entry, { b with graph, cursor := graph.tail entry })

def clear (_ : Builder) : Builder := {}

end Builder
end MotionScript
