import MotionScript.CommandLine
import MotionScript.Config
import MotionScript.Json.Sorted
import MotionScript.Session
import MotionScript.Text.Quoted

/-!
# Commands

A command holds a session on typed lines, runs the lines of a script, or shows a stored plan. All
that is said in a session is printed line by line, and at the end stands a summary with the recorded
program. Results are shown as text or as JSON.
-/
namespace MotionScript

inductive Presentation | text | json deriving DecidableEq, Repr

inductive CommandFault
  | unreadableScript (path : String) (cause : Disk.Fault)
  | unloadablePlan (name : String) (cause : Failure)

def CommandFault.message : CommandFault → String
  | .unreadableScript path _ => s!"Failed to read script {Text.quoted path}"
  | .unloadablePlan name _ => s!"Failed to load plan '{name}'"

/-- A session at work, with the number of lines that it has taken and what has been printed. -/
structure Conversation where
  session : Session
  lines : Nat := 0
  printed : String := ""

def Session.ofConfig (c : Config) (disk : Disk) : Session where
  store := .directory ⟨c.plansDirectory⟩ disk
  settings := c.settings
  prompt := c.prompt

def Session.fileRead? (s : Session) (line : String) : Option String :=
  match s.store, Instruction.classify line with
  | .directory store _, .load (some name) => some (store.pathOf name)
  | _, _ => none

def spoken (events : List Event) : String :=
  events.foldl (fun printed event =>
    match event with
    | .feedback text => printed ++ text ++ "\n"
    | _ => printed) ""

def exported (value : Json) : String := value.sorted.pretty ++ "\n"

def opening : String :=
  "Enter 'shutdown' to exit, else enter desired navigational commands...\n" ++
    spoken [.feedback Session.greeting]

/-- The lines of a script that count: blank lines and lines that begin with `#` do not. -/
def scriptLines (script : String) : List String :=
  (Text.lines script).filter fun line =>
    match Text.trim line.toList with
    | [] | '#' :: _ => false
    | _ => true

def summary (presentation : Presentation) (s : Session) (rendering : String) (lines : Nat) :
    String :=
  match presentation with
  | .text => "\n" ++ rendering
  | .json => exported <| .object [
      (Json.pieces "lines", .ofNat lines),
      (Json.pieces "nodes", .ofNat s.builder.graph.size),
      (Json.pieces "open_blocks", .ofNat s.builder.pending.length),
      (Json.pieces "graph", .ofText rendering)]

namespace Conversation

/-- Takes lines until one of them ends the session. Without an end in the turns given there is no
result. -/
def converse (turns : Nat) (c : Conversation) : List String → Option Conversation
  | [] => some c
  | line :: rest => do
    let r ← c.session.handleLine turns (.atRests []) line
    let next :=
      { session := r.session, lines := c.lines + 1, printed := c.printed ++ spoken r.events.toList }
    match r.result with
    | .shutdown => return next
    | .goOn => next.converse turns rest

def closing (presentation : Presentation) (c : Conversation) : String :=
  let (rendering, s, event) := c.session.farewell
  spoken [event] ++ summary presentation s rendering c.lines

def whole (turns : Nat) (presentation : Presentation) (c : Conversation) (lines : List String) :
    Option (String × Disk) :=
  (c.converse turns lines).map fun c => (c.printed ++ c.closing presentation, c.session.store.disk)

end Conversation

def describe (presentation : Presentation) (name : String) (plan : Plan) : Except Failure String :=
  match presentation with
  | .text =>
    (Builder.graft {} plan).map fun (entry, b) =>
      s!"Plan '{name}' ({plan.nodes.length} nodes):\n" ++ b.graph.render entry
  | .json =>
    .ok <| exported <| .object [
      (Json.pieces "name", .ofText name),
      (Json.pieces "nodes", .ofNat plan.nodes.length),
      (Json.pieces "plan", plan.toJson)]

/-- Carries out a command with the text that is typed, and gives what is printed and the disk at the
end. -/
def Command.carryOut (turns : Nat) (presentation : Presentation) (c : Config) (disk : Disk)
    (input : String) :
    Command → Except CommandFault (Option (String × Disk))
  | .session =>
    .ok (Conversation.whole turns presentation ⟨.ofConfig c disk, 0, opening⟩ (Text.lines input))
  | .run path =>
    match disk.read path with
    | .error cause => .error (.unreadableScript path cause)
    | .ok script =>
        .ok (Conversation.whole turns presentation ⟨.ofConfig c disk, 0, ""⟩ (scriptLines script))
  | .showPlan name =>
    match (DirectoryStore.load ⟨c.plansDirectory⟩ disk name).bind (describe presentation name) with
    | .error cause => .error (.unloadablePlan name cause)
    | .ok printed => .ok (some (printed, disk))

end MotionScript
