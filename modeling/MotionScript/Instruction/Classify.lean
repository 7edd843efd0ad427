import MotionScript.Graph.Payload
import MotionScript.Text.Blank

/-!
# Instructions

One line of text is one instruction. It is found by looking for keywords in a fixed order, anywhere
in the line and inside longer words, and the first one found decides; a line without keywords is a
motion. `classify` says which instruction a line is.
-/
namespace MotionScript
open Text

inductive Instruction
  | stop
  | clear
  /-- Store the recorded program under a name. -/
  | save (name : Option String)
  /-- Continue the recorded program with a stored one. -/
  | load (name : Option String)
  | execute
  | say (text : String)
  | endLoop
  | endConditional
  /-- Open a loop or a conditional. -/
  | openBlock (kind : NodeKind)
  /-- A motion, with its direction if the line names one. -/
  | move (kind : NodeKind) (motion : Option Motion)
  deriving DecidableEq, Repr

namespace Instruction

def kind? : Instruction → Option NodeKind
  | .say _ => some .speech
  | .openBlock kind => some kind
  | .move kind _ => some kind
  | _ => none

/-- The first word after the word of the line in which the keyword first ends. -/
def argument? (keyword line : String) : Option String := do
  let rest ← afterFirst? keyword.toList line.toList
  let word ← firstWord? (dropWord rest)
  return String.ofList word

def spokenText (line : String) : String :=
  String.ofList (trimStart ((afterFirst? "say".toList line.toList).getD []))

def classify (line : String) : Instruction :=
  let mentions (keyword : String) : Bool := occurs keyword.toList line.toList
  if mentions "stop" then .stop
  else if mentions "clear" then .clear
  else if mentions "save" then .save (argument? "save" line)
  else if mentions "load" then .load (argument? "load" line)
  else if mentions "execute" then .execute
  else if mentions "say" then .say (spokenText line)
  else if mentions "end while" || mentions "end loop" then .endLoop
  else if mentions "end if" then .endConditional
  else if mentions "do while" then .openBlock .doWhileLoop
  else if mentions "while" then .openBlock .whileLoop
  else if mentions "if" then .openBlock .conditional
  else if mentions "until" then .move .untilNear (Motion.ofText? line)
  else .move .once (Motion.ofText? line)

end Instruction
end MotionScript
