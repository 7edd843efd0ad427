import MotionScript.Graph.Basic
import MotionScript.Text.Quoted

/-!
# Graphs as text

A rendering has one line for each walk of up to nine edges from its start, in branch order. The line
is indented by one tab for each edge and shows the fields of the node at the end of the walk, so
loops are unrolled and shared nodes are shown on every path. Speech is quoted, and so cannot break
its line.
-/
namespace MotionScript.Graph

def renderingDepth : Nat := 10

private def orNone (text : Option String) : String := text.getD "None"

def describe (id : NodeId) (p : Payload) : String :=
  " ".intercalate [toString id, p.kind.name, orNone (p.motion.map Motion.name),
    if p.kind.isMotion then p.params.text else "None",
    orNone (p.sense.map Sense.name), orNone (p.speech.map Text.quoted)]

/-- The lines for the walks from a node: how many lines deep to go, and the level of the first. -/
def renderLines (g : Graph) : Nat → Nat → NodeId → List String
  | 0, _, _ => []
  | depth + 1, level, id =>
    match g.node? id with
    | none => []
    | some node =>
      (String.ofList (List.replicate level '\t') ++ describe id node.payload) ::
        node.children.flatMap (g.renderLines depth (level + 1))

def render (g : Graph) (start : NodeId) : String :=
  String.join ((g.renderLines renderingDepth 0 start).map (· ++ "\n"))

end MotionScript.Graph
