import MotionScript.Controller
import MotionScript.Graph.Basic

/-!
# Events

What observers of the program are told: what it says to people, what it writes to the controller,
and when an execution begins and ends.
-/
namespace MotionScript

/-- How an execution ended: with a node that has no next one, by a cancel, or at the bound on
visited nodes. -/
inductive Outcome | completed | cancelled | stepLimit deriving DecidableEq, Repr

inductive Event
  | feedback (text : String)
  | speech (node : NodeId) (text : String)
  | frame (node : NodeId) (input : ControllerInput)
  | axesReleased (node : NodeId)
  | executionStarted (entry : NodeId)
  | executionFinished (steps : Nat) (outcome : Outcome)
  deriving DecidableEq

inductive EventType
  | feedback | speech | frame | axesReleased | executionStarted | executionFinished
  deriving DecidableEq, Repr

def Event.type : Event → EventType
  | .feedback _ => .feedback
  | .speech .. => .speech
  | .frame .. => .frame
  | .axesReleased _ => .axesReleased
  | .executionStarted _ => .executionStarted
  | .executionFinished .. => .executionFinished

end MotionScript
