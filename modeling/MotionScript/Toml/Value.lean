/-!
# TOML values

A table keeps its entries in the order in which they were first named, together with how it came to
be, which decides what later lines may add. The tables that one header opens again and again form a
list. Points in time are checked when they are read and not kept, since nothing asks for them.
-/
namespace MotionScript

/-- How a table came to be: opened by its own header, named on the way to a longer header, named on
the way to a dotted key, or written between braces. -/
inductive Toml.Origin | header | implied | dotted | inline deriving DecidableEq, Repr

inductive Toml
  | string (value : String)
  | integer (value : Int)
  | float (value : Float)
  | boolean (value : Bool)
  | moment
  | array (items : List Toml)
  | table (origin : Toml.Origin) (entries : List (String × Toml))
  | tables (items : List (List (String × Toml)))

namespace Toml

abbrev Entries := List (String × Toml)

def text? : Toml → Option String
  | .string value => some value
  | _ => none

/-- A value that is a number; whole numbers go to the nearest floating-point number. -/
def number? : Toml → Option Float
  | .float value => some value
  | .integer value => some (.ofInt value)
  | _ => none

def nat? : Toml → Option Nat
  | .integer (.ofNat n) => some n
  | _ => none

/-- The fields of a record in the order of their names. A table gives them by name and an array by
place; a point in time is a record that gives none of them. -/
def fields? (names : List String) : Toml → Option (List (Option Toml))
  | .table _ entries => some (names.map (List.lookup · entries))
  | .array items => some (names.mapIdx fun i _ => items[i]?)
  | .tables items => some (names.mapIdx fun i _ => items[i]?.map (.table .header))
  | .moment => some (names.map fun _ => none)
  | _ => none

end Toml
end MotionScript
