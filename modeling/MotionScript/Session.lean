import MotionScript.Builder
import MotionScript.Execution.Run
import MotionScript.Graph.Rendering
import MotionScript.Instruction.Classify
import MotionScript.Instruction.Vector
import MotionScript.Store.Basic

/-!
# Sessions

A session takes one line after the other and gives one response to each. Lines edit the recorded
program, store and restore it, or execute it. A line that fails leaves the program as it was, and
the hint of its failure is the response. Everything that is said to people is followed by the
prompt.
-/
namespace MotionScript

structure Session where
  builder : Builder := {}
  store : PlanStore := .memory {}
  surroundings : Surroundings := {}
  settings : Settings := {}
  prompt : String

inductive Request
  | nothing
  | shutdown
  | instruction (line : String)
  deriving DecidableEq, Repr

inductive LineOutcome | goOn | shutdown deriving DecidableEq, Repr

/-- What a line asks of a session: an edit, which is done at once and has a response or a failure,
or an execution. -/
inductive Reply
  | edited (response : Except Failure String) (session : Session)
  | execution

/-- What came of a line, a greeting or a farewell. -/
structure Reaction (Result : Type) where
  result : Result
  session : Session
  events : Array Event := #[]
  outside : Outside

def shutdownLine : String := "shutdown"

/-- What a typed line asks for; blanks around it do not count. -/
def Request.ofLine (line : String) : Request :=
  let line := String.ofList (Text.trim line.toList)
  if line.isEmpty then .nothing
  else if line = shutdownLine then .shutdown
  else .instruction line

namespace Session

def greeting : String :=
  "Hello. I am Bow with Navigational Instruction Interface. What can I help you with?"

def startText : String := "Starting execution"

def farewellText : String := "I am exiting now. Thank you and have a great day!"

def prompted (s : Session) (sentence : String) : String := sentence ++ ". " ++ s.prompt

def edit {α : Type} (s : Session) (response : α → String) : Except Failure (α × Builder) → Reply
  | .ok (a, builder) => .edited (.ok (response a)) { s with builder }
  | .error failure => .edited (.error failure) s

def save (s : Session) : Option String → Reply
  | none => .edited (.error (.malformed (.noPlanName "save"))) s
  | some name =>
    match s.builder.snapshot with
    | .error failure => .edited (.error failure) s
    | .ok plan =>
      let (result, store) := s.store.save name plan
      .edited (result.map fun _ => s.prompted s!"Saved in {name}") { s with store }

def load (s : Session) : Option String → Reply
  | none => .edited (.error (.malformed (.noPlanName "load"))) s
  | some name =>
      s.edit (fun _ => s.prompted s!"Loaded {name} at current node")
        ((s.store.load name).bind s.builder.graft)

def move (s : Session) (line : String) (kind : NodeKind) : Option Motion → Reply
  | none => .edited (.error (.malformed (.noMotion line))) s
  | some motion =>
    s.edit (fun _ => s.prompt)
      ((motion.params line).map fun params => ((), s.builder.append (.ofMotion kind motion params)))

def reply (s : Session) (line : String) : Reply :=
  match Instruction.classify line with
  | .stop => .edited (.ok "Ok. Waiting for next instruction.") s
  | .clear =>
      .edited (.ok "Cleared all commands. How can I help you today?")
        { s with builder := s.builder.clear }
  | .save name => s.save name
  | .load name => s.load name
  | .execute => if s.builder.graph.isEmpty then .edited (.error .emptyGraph) s else .execution
  | .say text =>
      s.edit (fun _ => s.prompted "Ok, I will say that")
        (.ok ((), s.builder.append (.ofSpeech text)))
  | .endLoop | .endConditional =>
      s.edit (fun kind => s.prompted s!"{kind.name} Ended") s.builder.closeBlock
  | .openBlock kind =>
    s.edit (fun _ => s!"What should I do in this {kind.name} condition?") (s.builder.openBlock kind)
  | .move kind motion => s.move line kind motion

def conclusion (s : Session) (r : Report) : String :=
  s.prompted <| match r.outcome with
    | .completed => "Execution complete"
    | .cancelled => "Execution cancelled"
    | .stepLimit => s!"Execution stopped after {r.steps} steps"

/-- Applies a line and gives the response or the failure. An execution begins by forgetting any
cancel. -/
def process (turns : Nat) (s : Session) (schedule : Schedule) (line : String) :
    Option (Reaction (Except Failure String)) :=
  let o := Outside.begin schedule s.surroundings
  match s.reply line with
  | .edited result session =>
      some { result, session := { session with surroundings := o.surroundings }, outside := o }
  | .execution =>
    let o := { o with surroundings := { o.surroundings with cancelled := false } }
    (s.builder.graph.execute turns s.settings o).map fun ending => {
      result := ending.result.map s.conclusion
      session := { s with surroundings := ending.outside.surroundings }
      events := #[.feedback startText] ++ ending.events
      outside := ending.outside }

def answer (s : Session) : Except Failure String → String
  | .ok response => response
  | .error failure => s.prompted failure.hint

/-- Handles a line as it is typed; a blank line asks for nothing. -/
def handleLine (turns : Nat) (s : Session) (schedule : Schedule) (line : String) :
    Option (Reaction LineOutcome) :=
  let quiet (result : LineOutcome) : Reaction LineOutcome :=
    let o := Outside.begin schedule s.surroundings
    { result, session := { s with surroundings := o.surroundings }, outside := o }
  match Request.ofLine line with
  | .nothing => some (quiet .goOn)
  | .shutdown => some (quiet .shutdown)
  | .instruction line =>
    (s.process turns schedule line).map fun r =>
      { r with result := .goOn, events := r.events.push (.feedback (s.answer r.result)) }

/-- What is said at the end: the program is shown, and a button tells the robot. -/
def farewell (s : Session) : String × Session × Event :=
  let controller := s.surroundings.controller.update ({ · with b := 1 })
  (s.builder.graph.render Graph.root, { s with surroundings := { s.surroundings with controller } },
    .feedback farewellText)

end Session
end MotionScript
