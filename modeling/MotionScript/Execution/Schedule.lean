import MotionScript.Execution.Turn

/-!
# Schedules

What happens around an activity while it rests is given beforehand as a list of signals. A signal
comes at a certain rest, counted from one, with zero for the time before the first turn; or it comes
at a certain millisecond. `run` lets an activity act until it ends and notes the events, the inputs
that were read, and the time that passed. A sleep takes its whole length, unless a signal cancels
the activity; then it ends at once.
-/
namespace MotionScript

/-- Something that happens around an activity, in this order: a report of the sensors, a read of the
controller, a cancel, and the end of a cancel. -/
structure Signal where
  landmarks : Option Landmarks := none
  read : Bool := false
  cancel : Bool := false
  reset : Bool := false
  deriving DecidableEq, Inhabited

inductive Schedule
  | atRests (signals : List (Nat × Signal))
  | atTimes (signals : List (Nat × Signal))

def Surroundings.receive (s : Surroundings) (signal : Signal) :
    Surroundings × Option ControllerInput :=
  let controller := match signal.landmarks with
    | some landmarks => s.controller.report landmarks
    | none => s.controller
  let read := if signal.read then some controller.read.1 else none
  let controller := if signal.read then controller.read.2 else controller
  (⟨controller, (s.cancelled || signal.cancel) && !signal.reset⟩, read)

/-- Everything around an activity: what comes, what is, and what was noted. -/
structure Outside where
  schedule : Schedule
  surroundings : Surroundings
  reads : Array ControllerInput := #[]
  rests : Nat := 0
  /-- The milliseconds so far. -/
  clock : Nat := 0

namespace Outside

def fire (o : Outside) (signal : Signal) : Outside :=
  let (surroundings, read) := o.surroundings.receive signal
  { o with surroundings, reads := o.reads ++ read.toList }

def fireDue (o : Outside) : Outside :=
  match o.schedule with
  | .atRests signals =>
    (signals.filter (·.1 == o.rests)).foldl (fun o (_, signal) => o.fire signal) o
  | .atTimes _ => o

/-- Sleeps until a time or until a signal cancels the activity. -/
def sleepUntil (deadline : Nat) : List (Nat × Signal) → Outside → Outside
  | [], o => { o with schedule := .atTimes [], clock := deadline }
  | (time, signal) :: later, o =>
    if time < deadline then
      let o := { o.fire signal with schedule := .atTimes later, clock := max o.clock time }
      if o.surroundings.cancelled then o else sleepUntil deadline later o
    else { o with schedule := .atTimes ((time, signal) :: later), clock := deadline }

def pass (o : Outside) (duration : Nat) : Outside :=
  let o := { o with rests := o.rests + 1 }
  match o.schedule with
  | .atRests _ => { o with clock := o.clock + duration }.fireDue
  | .atTimes signals => if duration = 0 then o else sleepUntil (o.clock + duration) signals o

end Outside

structure Ending (Result : Type) where
  result : Result
  events : Array Event
  outside : Outside

/-- Lets an activity act for at most a number of turns; without an end in these there is no
ending. -/
def run {State Result : Type} (activity : Activity State Result) :
    Nat → State → Outside → Array Event → Option (Ending Result)
  | 0, _, _, _ => none
  | turns + 1, state, o, events =>
    let t := activity state o.surroundings
    let o := { o with surroundings := t.surroundings }
    let events := events ++ t.events
    match t.move with
    | .onward state => run activity turns state o events
    | .rest duration state => run activity turns state (o.pass duration) events
    | .ended result => some ⟨result, events, o⟩

end MotionScript
