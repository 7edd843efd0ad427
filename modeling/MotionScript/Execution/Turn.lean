import MotionScript.Event

/-!
# Turns

An activity shares its thread with the rest of the program. It acts in turns: after a turn it goes
on at once, rests for a while, or has ended. Only while it rests can anything else happen, and then
the surroundings that it shares with the rest may change: the controller, the landmarks and the
request to cancel.
-/
namespace MotionScript

/-- What an activity shares with the rest of the program. -/
structure Surroundings where
  controller : Controller := {}
  cancelled : Bool := false
  deriving DecidableEq, Inhabited

/-- What follows a turn: the state to go on from, or the result. -/
inductive Move (State Result : Type)
  | onward (state : State)
  /-- Rest for a number of milliseconds; zero only lets the others have their turn. -/
  | rest (duration : Nat) (state : State)
  | ended (result : Result)
  deriving DecidableEq

structure Turn (State Result : Type) where
  events : List Event := []
  surroundings : Surroundings
  move : Move State Result
  deriving DecidableEq

/-- An activity says for each state what its next turn is. -/
abbrev Activity (State Result : Type) := State → Surroundings → Turn State Result

end MotionScript
