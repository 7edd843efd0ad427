import MotionScript.Execution.Drive
import MotionScript.Failure

/-!
# Executions

An execution walks a graph from its first recorded node. Motions are sent to the controller, speech
is said and published, and headers choose the first branch when a face is seen and the second
otherwise; the condition of a header is not consulted. A motion that is repeated asks before each
repetition whether a landmark is near. The walk ends where there is no next node, at the bound on
visited nodes, or by a cancel, which is looked for before each node, each repetition and each frame.
A node that wrote no frame is followed by a rest, so that a walk over such nodes lets others have
their turn.
-/
namespace MotionScript

structure Settings where
  /-- How far the sticks are pushed for one unit of velocity. -/
  scale : Float := Actuation.defaultScale
  /-- The milliseconds of one frame. -/
  frameInterval : Nat := 1000
  /-- The milliseconds between the repetitions of a motion. -/
  untilPause : Nat := 0
  /-- The bound on visited nodes; zero is none. -/
  maxSteps : Nat := 0

/-- What an execution did: the nodes visited, the frames written, and how it ended. -/
structure Report where
  steps : Nat
  frames : Nat
  outcome : Outcome
  deriving DecidableEq, Repr

/-- What an execution does in its next turn. -/
inductive Stage
  /-- It goes to the next node, if there is one. -/
  | arriving (next : Option NodeId)
  /-- It drives, and repeats the motion afterwards or not. -/
  | driving (drive : Drive) (repeats : Bool)
  /-- It asks whether a landmark is near, perhaps after a sleep. -/
  | sensing (node : NodeId) (asleep : Bool)
  deriving DecidableEq

structure Execution where
  stage : Stage
  steps : Nat := 0
  frames : Nat := 0
  /-- The frames written before the current node. -/
  before : Nat := 0
  deriving DecidableEq

namespace Execution

def finish (e : Execution) (outcome : Outcome) (s : Surroundings) : Turn Execution Report where
  events := [.executionFinished e.steps outcome]
  surroundings := s
  move := .ended ⟨e.steps, e.frames, outcome⟩

/-- Leaves a node by a branch, with a rest if the node wrote no frame. -/
def leave (g : Graph) (e : Execution) (node : NodeId) (branch : Nat) : Move Execution Report :=
  let next := { e with stage := .arriving (g.child? node branch) }
  if e.frames = e.before then .rest 0 next else .onward next

def afterMotion (g : Graph) (settings : Settings) (e : Execution) (node : NodeId) (repeats : Bool)
    (written : Nat) :
    Move Execution Report :=
  let e := { e with frames := e.frames + written }
  if repeats then .rest settings.untilPause
    { e with stage := .sensing node (settings.untilPause != 0) }
  else e.leave g node 0

def actuate (g : Graph) (settings : Settings) (e : Execution) (node : NodeId) (payload : Payload)
    (repeats : Bool) (s : Surroundings) : Turn Execution Report :=
  match payload.motion with
  | none => { surroundings := s, move := e.afterMotion g settings node repeats 0 }
  | some motion =>
    match Actuation.ofMotion settings.scale motion payload.params with
    | .press =>
      let (events, s) := pressGripper node s
      { events, surroundings := s, move := e.afterMotion g settings node repeats 1 }
    | .drive frames frame =>
      { surroundings := s,
        move := .onward { e with stage := .driving { node, frame, left := frames } repeats } }

def visit (g : Graph) (settings : Settings) (e : Execution) (id : NodeId) (payload : Payload)
    (s : Surroundings) :
    Turn Execution Report :=
  let e := { e with steps := e.steps + 1, before := e.frames }
  match payload.kind with
  | .root => { surroundings := s, move := e.leave g id 0 }
  | .once => e.actuate g settings id payload false s
  | .untilNear => { surroundings := s, move := .onward { e with stage := .sensing id false } }
  | .whileLoop | .doWhileLoop | .conditional =>
    { surroundings := s, move := e.leave g id (if s.controller.landmarks.face then 0 else 1) }
  | .speech =>
    let text := payload.speech.getD ""
    { events := [.feedback text, .speech id text], surroundings := s, move := e.leave g id 0 }

def turn (g : Graph) (settings : Settings) : Activity Execution Report := fun e s =>
  match e.stage with
  | .arriving next =>
    match next.bind fun id => (g.node? id).map fun node => (id, node.payload) with
    | none => e.finish .completed s
    | some (id, payload) =>
      if s.cancelled then e.finish .cancelled s
      else if 0 < settings.maxSteps ∧ settings.maxSteps ≤ e.steps then e.finish .stepLimit s
      else e.visit g settings id payload s
  | .driving drive repeats =>
    let t := drive.turn settings.frameInterval s
    match t.move with
    | .onward drive => { t with move := .onward { e with stage := .driving drive repeats } }
    | .rest duration drive =>
      { t with move := .rest duration { e with stage := .driving drive repeats } }
    | .ended none => e.finish .cancelled t.surroundings
    | .ended (some written) =>
      { t with move := e.afterMotion g settings drive.node repeats written }
  | .sensing node asleep =>
    if asleep && s.cancelled then e.finish .cancelled s
    else if s.controller.landmarks.near then { surroundings := s, move := e.leave g node 0 }
    else if s.cancelled then e.finish .cancelled s
    else
      match g.node? node with
      | none => e.finish .completed s
      | some found => e.actuate g settings node found.payload true s

/-- An execution of a graph that is about to visit its first recorded node, and the event that says
so. -/
def start (g : Graph) : Except Failure (Execution × Event) :=
  match g.first? with
  | none => .error .emptyGraph
  | some entry => .ok ({ stage := .arriving (some entry) }, .executionStarted entry)

end Execution
end MotionScript
