import MotionScript.Disk.Tree
import MotionScript.Store.Memory

/-!
# Plans kept in files

A directory keeps each plan in a file of its own, which has the name of the plan and the ending
`.json`. The directory is made when the first plan is stored, even if the plan itself cannot be
written.
-/
namespace MotionScript

structure DirectoryStore where
  path : String
  deriving DecidableEq

namespace DirectoryStore

def pathOf (s : DirectoryStore) (name : String) : String := Disk.join s.path (name ++ ".json")

/-- Stores a plan under a name; the disk is given also when this fails. -/
def save (s : DirectoryStore) (disk : Disk) (name : String) (plan : Plan) :
    Except Failure Unit × Disk :=
  match Plan.checkName name with
  | .error failure => (.error failure, disk)
  | .ok () =>
    match disk.makeDirectories s.path with
    | .error cause => (.error (.persistence (.noDirectory cause)), disk)
    | .ok disk =>
      match disk.write (s.pathOf name) plan.write with
      | .error cause => (.error (.persistence (.unwritable (s.pathOf name) cause)), disk)
      | .ok disk => (.ok (), disk)

def load (s : DirectoryStore) (disk : Disk) (name : String) : Except Failure Plan :=
  (Plan.checkName name).bind fun _ =>
    match disk.read (s.pathOf name) with
    | .error cause => .error (.persistence (.unreadable (s.pathOf name) cause))
    | .ok text => Plan.restore text

end DirectoryStore
end MotionScript
