import MotionScript.Store.Directory

/-!
# Plan stores

A session keeps its plans in memory or in a directory of a disk.
-/
namespace MotionScript

inductive PlanStore
  | memory (store : MemoryStore)
  | directory (store : DirectoryStore) (disk : Disk)

namespace PlanStore

/-- Stores a plan under a name; the store is given also when this fails. -/
def save (s : PlanStore) (name : String) (plan : Plan) : Except Failure Unit × PlanStore :=
  match s with
  | .memory store =>
    match store.save name plan with
    | .ok store => (.ok (), .memory store)
    | .error failure => (.error failure, s)
  | .directory store disk =>
    let (result, disk) := store.save disk name plan
    (result, .directory store disk)

def load (s : PlanStore) (name : String) : Except Failure Plan :=
  match s with
  | .memory store => store.load name
  | .directory store disk => store.load disk name

def disk : PlanStore → Disk
  | .memory _ => {}
  | .directory _ disk => disk

end PlanStore
end MotionScript
