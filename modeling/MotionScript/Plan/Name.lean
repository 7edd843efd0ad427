import MotionScript.Failure

/-!
# Names of plans

A plan is stored under a name that cannot lead out of the directory of plans.
-/
namespace MotionScript.Plan

/-- A name that is not empty, has no separator and no two dots in a row, and does not begin with a
dot. -/
def isName (name : String) : Bool :=
  let chars := name.toList
  !chars.isEmpty && !chars.contains '/' && !chars.contains '\\' && !Text.occurs ['.', '.'] chars &&
    chars.head? != some '.'

def checkName (name : String) : Except Failure Unit :=
  if isName name then .ok () else .error (.persistence (.invalidName name))

end MotionScript.Plan
