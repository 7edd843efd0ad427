import MotionScript.Execution.Basic
import MotionScript.Execution.Schedule

/-!
# Runs of drives and executions

A motion or a whole graph is carried out among the signals of a schedule, for a bounded number of
turns.
-/
namespace MotionScript

/-- The outside at the start of an activity, when the signals for the time before its first turn
have come. -/
def Outside.begin (schedule : Schedule) (surroundings : Surroundings) : Outside :=
  { schedule, surroundings : Outside }.fireDue

/-- Carries out one motion and gives the frames written, or the failure of a drive that was cut
short. -/
def Actuation.perform (turns interval : Nat) (node : NodeId) (a : Actuation) (o : Outside) :
    Option (Ending (Except Failure Nat)) :=
  match a with
  | .press =>
    let (events, surroundings) := pressGripper node o.surroundings
    some ⟨.ok 1, events.toArray, { o with surroundings }⟩
  | .drive frames frame =>
    (run (Drive.turn interval) turns { node, frame, left := frames } o #[]).map fun ending =>
      ⟨(ending.result.map Except.ok).getD (.error .cancelled), ending.events, ending.outside⟩

/-- Executes a graph and gives the report; a graph without recorded nodes publishes nothing and
fails. -/
def Graph.execute (turns : Nat) (settings : Settings) (g : Graph) (o : Outside) :
    Option (Ending (Except Failure Report)) :=
  match Execution.start g with
  | .error failure => some ⟨.error failure, #[], o⟩
  | .ok (e, started) =>
    (run (Execution.turn g settings) turns e o #[started]).map fun ending =>
      ⟨.ok ending.result, ending.events, ending.outside⟩

end MotionScript
