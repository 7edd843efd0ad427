import MotionScript.Builder
import MotionScript.Controller

/-!
# Structured programs

What is recorded is a program of statements and nested blocks. Here it is a tree, which is recorded
by going through it once, and which has a meaning of its own: an interpreter goes through the tree
among the landmarks that it sees, without a graph. A step of the interpreter leaves one mark and
looks at the landmarks once.
-/
namespace MotionScript

/-- A statement that is not a block: a motion done once, a motion repeated until a landmark is near,
or speech. -/
structure Leaf where
  payload : Payload
  kind_mem : payload.kind = .once ∨ payload.kind = .untilNear ∨ payload.kind = .speech

inductive BlockKind | whileLoop | doWhileLoop | conditional deriving DecidableEq, Repr

namespace BlockKind

def header : BlockKind → NodeKind
  | .whileLoop => .whileLoop
  | .doWhileLoop => .doWhileLoop
  | .conditional => .conditional

end BlockKind

/-- A list of statements. The statements of a block are a program again. -/
inductive Program
  | done
  | leaf (l : Leaf) (rest : Program)
  | block (kind : BlockKind) (body rest : Program)

namespace Program

def record : Program → Builder → Except Failure Builder
  | .done, b => .ok b
  | .leaf l rest, b => rest.record (b.append l.payload)
  | .block kind body rest, b => do
    let (_, b) ← b.openBlock kind.header
    let b ← body.record b
    let (_, b) ← b.closeBlock
    rest.record b

/-- What is still to be done: a program, the test of a loop whose body has just been done, or the
place where the branches of a conditional meet. -/
inductive Task
  | run (program : Program)
  | retest (body : Program)
  | merge

/-- The next node to be visited and the tasks after it, which depend on whether a face is seen. -/
def advance : List Task → Option (Payload × (Bool → List Task))
  | [] => none
  | .run .done :: tasks => advance tasks
  | .run (.leaf l rest) :: tasks => some (l.payload, fun _ => .run rest :: tasks)
  | .run (.block .whileLoop body rest) :: tasks =>
    some (.header .whileLoop, fun face =>
      if face then .run body :: .run (.block .whileLoop body rest) :: tasks else .run rest :: tasks)
  | .run (.block .doWhileLoop body rest) :: tasks =>
    some (.placeholder, fun _ => .run body :: .retest body :: .run rest :: tasks)
  | .run (.block .conditional body rest) :: tasks =>
    some (.header .conditional, fun face =>
      if face then .run body :: .merge :: .run rest :: tasks else .merge :: .run rest :: tasks)
  | .retest body :: tasks =>
    some (.header .doWhileLoop, fun face => if face
      then .run (.block .doWhileLoop body .done) :: tasks else tasks)
  | .merge :: tasks => some (.placeholder, fun _ => tasks)

/-- Where the interpreter is: between two nodes, or at a motion that is repeated until a landmark is
near. -/
inductive Control
  | next (tasks : List Task)
  | until (payload : Payload) (tasks : List Task)

/-- What can be observed of a program: a node is visited, its motion is repeated once more, or the
motion is not repeated any more. -/
inductive Mark
  | visits (payload : Payload)
  | repeats (payload : Payload)
  | passes (payload : Payload)

def Mark.visited? : Mark → Option Payload
  | .visits payload => some payload
  | _ => none

def Control.step : Control → Landmarks → Option (Mark × Control)
  | .next tasks, landmarks =>
    (advance tasks).map fun (payload, after) =>
      (.visits payload,
        if payload.kind = .untilNear then .until payload (after landmarks.face)
          else .next (after landmarks.face))
  | .until payload tasks, landmarks =>
    if landmarks.near then some (.passes payload, .next tasks)
      else some (.repeats payload, .until payload tasks)

/-- The marks that the interpreter leaves when it sees landmarks one after the other, and where it
is then. -/
def Control.trace : Control → List Landmarks → List Mark × Control
  | c, [] => ([], c)
  | c, landmarks :: later =>
    match c.step landmarks with
    | none => ([], c)
    | some (mark, c) => (mark :: (c.trace later).1, (c.trace later).2)

def Control.Finished (c : Control) : Prop := ∀ landmarks, c.step landmarks = none

def start (p : Program) : Control := .next [.run p]

end Program
end MotionScript
