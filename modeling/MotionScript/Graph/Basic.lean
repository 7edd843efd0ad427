import MotionScript.Graph.Payload

/-!
# Instruction graphs

The nodes of a graph stand in an array and are named by their place in it; node 0 is the root
sentinel. A node lists its children by branch: the first is where the walk goes on, or the branch
taken when a condition holds, and the second is the other branch. The first parent to which a node
is attached owns it, so that ownership is a tree while the child edges may close loops.
-/
namespace MotionScript

/-- The name of a node: its place in the array. -/
abbrev NodeId := Nat

structure Node where
  payload : Payload
  owner : Option NodeId := none
  children : List NodeId := []

structure Graph where
  nodes : Array Node

namespace Graph

def root : NodeId := 0

def empty : Graph := ⟨#[{ payload := .root }]⟩

def size (g : Graph) : Nat := g.nodes.size

def node? (g : Graph) (id : NodeId) : Option Node := g.nodes[id]?

def kind? (g : Graph) (id : NodeId) : Option NodeKind :=
  (g.node? id).map fun node => node.payload.kind

/-- The children of a node in branch order. -/
def children (g : Graph) (id : NodeId) : List NodeId := ((g.node? id).map Node.children).getD []

def child? (g : Graph) (id : NodeId) (branch : Nat) : Option NodeId := (g.children id)[branch]?

def owner? (g : Graph) (id : NodeId) : Option NodeId := (g.node? id).bind Node.owner

def first? (g : Graph) : Option NodeId := g.child? root 0

def isEmpty (g : Graph) : Bool := g.first?.isNone

def nextId (g : Graph) : NodeId := g.size

def push (g : Graph) (node : Node) : Graph := ⟨g.nodes.push node⟩

def add (g : Graph) (payload : Payload) : Graph := g.push { payload }

/-- A node that belongs to `parent` from now on, unless it has an owner. -/
def Node.claim (parent : NodeId) (node : Node) : Node :=
  { node with owner := node.owner.or (some parent) }

/-- Makes `child` the last child of `parent`, who becomes its owner if it has none; the root is
never owned. -/
def attach (g : Graph) (parent child : NodeId) : Graph :=
  let nodes := g.nodes.modify parent fun node => { node with children := node.children ++ [child] }
  ⟨if child = root then nodes else nodes.modify child (Node.claim parent)⟩

/-- Whether an edge closes a loop or joins a path, and is not the edge by which the child is
owned. -/
def isBackEdge (g : Graph) (parent child : NodeId) : Bool := g.owner? child != some parent

end Graph
end MotionScript
