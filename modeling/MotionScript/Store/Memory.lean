import MotionScript.Plan.Format
import MotionScript.Plan.Name

/-!
# Plans kept in memory

A store keeps the text of each plan under its name. What is loaded has been read and checked again.
-/
namespace MotionScript

/-- Reads the text of a plan and checks the plan. -/
def Plan.restore (text : String) : Except Failure Plan :=
  (Plan.read text).bind fun plan => plan.validate.map fun _ => plan

structure MemoryStore where
  plans : List (String × String) := []
  deriving DecidableEq

namespace MemoryStore

def text? (s : MemoryStore) (name : String) : Option String := s.plans.lookup name

def contains (s : MemoryStore) (name : String) : Bool := (s.text? name).isSome

/-- Stores a plan under a name, in place of the plan that had it. -/
def save (s : MemoryStore) (name : String) (plan : Plan) : Except Failure MemoryStore :=
  (Plan.checkName name).map fun _ => ⟨(name, plan.write) :: s.plans.filter (·.1 != name)⟩

def load (s : MemoryStore) (name : String) : Except Failure Plan :=
  (Plan.checkName name).bind fun _ =>
    match s.text? name with
    | none => .error (.persistence (.unknownName name))
    | some text => Plan.restore text

end MemoryStore
end MotionScript
