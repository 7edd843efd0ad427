import MotionScript.Motion

/-!
# What a node of an instruction graph says

The kinds of nodes and the payload of a node, which is independent of its place in a graph. Motions
and speech do something; the headers of loops and conditionals choose between two branches.
-/
namespace MotionScript

/-- The kinds of nodes: the root sentinel, a motion done once, a motion repeated until a landmark is
near, the three headers, and speech. -/
inductive NodeKind | root | once | untilNear | whileLoop | doWhileLoop | conditional | speech
  deriving DecidableEq, Repr

namespace NodeKind

def name : NodeKind → String
  | .root => "Root"
  | .once => "Do"
  | .untilNear => "DoUntil"
  | .whileLoop => "While"
  | .doWhileLoop => "DoWhile"
  | .conditional => "If"
  | .speech => "Say"

def isMotion : NodeKind → Bool
  | .once | .untilNear => true
  | _ => false

end NodeKind

/-- The condition that a header or a repeated motion names in its text. Conditions are not linked to
sensors yet. -/
inductive Sense | unlinked deriving DecidableEq, Repr

namespace Sense

def name : Sense → String
  | .unlinked => "Unlinked"

def holds : Sense → Bool
  | .unlinked => false

end Sense

/-- What a node says, wherever it stands. -/
structure Payload where
  kind : NodeKind
  motion : Option Motion := none
  params : MotionParams := {}
  sense : Option Sense := none
  speech : Option String := none

namespace Payload

def root : Payload := { kind := .root }

/-- A motion; only one that is repeated carries a condition. -/
def ofMotion (kind : NodeKind) (motion : Motion) (params : MotionParams) : Payload where
  kind := kind
  motion := some motion
  params := params
  sense := if kind = .untilNear then some .unlinked else none

def header (kind : NodeKind) : Payload := { kind, sense := some .unlinked }

def ofSpeech (text : String) : Payload := { kind := .speech, speech := some text }

/-- A forward motion over no distance, which stands where a path needs a node and nothing is to be
done. -/
def placeholder : Payload := ofMotion .once .forward {}

end Payload
end MotionScript
