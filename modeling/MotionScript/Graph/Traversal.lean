import MotionScript.Graph.Basic

/-!
# Walking a graph

`reachable` lists the nodes that can be reached from one, each once and in depth-first order. It
keeps a stack of nodes that are owed and the list of nodes not yet visited, which bounds the search.
`tail` follows owned children only, as far as they go.
-/
namespace MotionScript.Graph

/-- Visits the nodes of a stack, each followed by what can be reached from its children in branch
order; only nodes in `unvisited` are visited, each once. -/
def visit (g : Graph) (unvisited stack : List NodeId) : List NodeId :=
  match stack with
  | [] => []
  | id :: rest =>
    if h : id ∈ unvisited then
      have := List.length_erase_of_mem h
      have := List.length_pos_of_mem h
      id :: g.visit (unvisited.erase id) (g.children id ++ rest)
    else g.visit unvisited rest
termination_by (unvisited.length, stack.length)

/-- The nodes that can be reached from a node along child edges, in depth-first order. -/
def reachable (g : Graph) (start : NodeId) : List NodeId := g.visit (List.range g.size) [start]

def lastOwned? (g : Graph) (id : NodeId) : Option NodeId :=
  (g.children id).reverse.find? fun child => g.owner? child == some id

/-- Follows the last owned child for a number of steps at most. -/
def followOwned (g : Graph) : Nat → NodeId → NodeId
  | 0, id => id
  | steps + 1, id =>
    match g.lastOwned? id with
    | some child => g.followOwned steps child
    | none => id

/-- The node at the end of the path of last owned children. Ownership has no cycle, so the path is
shorter than the array. -/
def tail (g : Graph) (start : NodeId) : NodeId := g.followOwned g.size start

end MotionScript.Graph
