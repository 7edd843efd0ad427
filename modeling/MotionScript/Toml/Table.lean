import MotionScript.Toml.Value

/-!
# Building TOML tables

A path leads from a table to a table within it, and tables that are missing on the way are made. A
table may be opened by a header only once, a key may be given a value only once, a dotted key may
not reach into a table that has a header, and nothing reaches into a table between braces.
-/
namespace MotionScript.Toml

structure Key where
  path : List String
  name : String
  deriving DecidableEq, Repr

/-- The entries with another value for a name that they hold. -/
def Entries.set (name : String) (value : Toml) (entries : Entries) : Entries :=
  entries.map fun (other, old) => (other, if other = name then value else old)

/-- Changes the table at the end of a path. The last table of a list stands for the list. -/
def alter (dotted : Bool) (change : Origin → Entries → Option Entries) :
    List String → Origin → Entries → Option Entries
  | [], origin, entries => change origin entries
  | name :: rest, _, entries =>
    match List.lookup name entries with
    | none => do
      let origin := if dotted then .dotted else .implied
      let inner ← alter dotted change rest origin []
      return entries ++ [(name, .table origin inner)]
    | some (.table origin inner) =>
      if origin = .inline ∨ (dotted ∧ origin = .header) then none
      else do
        let inner ← alter dotted change rest origin inner
        return entries.set name (.table origin inner)
    | some (.tables items) => do
      let inner ← alter dotted change rest .header (← items.getLast?)
      return entries.set name (.tables (items.dropLast ++ [inner]))
    | some _ => none

/-- Gives a value to a key. A key without dots goes into any table but one made by dotted keys, and
a dotted one only into such a table. -/
def put (key : Key) (value : Toml) : Origin → Entries → Option Entries :=
  alter true (fun origin entries =>
    if (origin == .dotted) == key.path.isEmpty || (List.lookup key.name entries).isSome then none
    else some (entries ++ [(key.name, value)])) key.path

def openTable (key : Key) : Entries → Option Entries :=
  alter false (fun _ entries =>
    match List.lookup key.name entries with
    | none => some (entries ++ [(key.name, .table .header [])])
    | some (.table .implied inner) => some (entries.set key.name (.table .header inner))
    | some _ => none) key.path .header

def openItem (key : Key) : Entries → Option Entries :=
  alter false (fun _ entries =>
    match List.lookup key.name entries with
    | none => some (entries ++ [(key.name, .tables [[]])])
    | some (.tables items) => some (entries.set key.name (.tables (items ++ [[]])))
    | some _ => none) key.path .header

/-- The table between braces that holds given entries. -/
def inlineTable? (pairs : List (Key × Toml)) : Option Toml :=
  (pairs.foldlM (fun entries (key, value) => put key value .inline entries) []).map (.table .inline)

end MotionScript.Toml
