import MotionScript.Json.Amount

/-!
# Records and names in JSON

A record is an object with the names of its fields, or an array of the fields in their order. A
field may stand only once, fields that the record does not know are skipped without a look at them,
and an array holds no more items than the record has fields. A name out of a fixed list is a string,
or an object whose only member has the name for its key and nothing for its value.
-/
namespace MotionScript.Json

/-- The only member of an object with a key; `none` when there are several, `some none` when there
is none. -/
def lookup? (key : List Piece → Bool) (members : List (List Piece × Json)) : Option (Option Json) :=
  match members.filter (key ·.1) with
  | [] => some none
  | [(_, value)] => some (some value)
  | _ => none

def isNamed (name : String) (s : List Piece) : Bool := text? s == some name

/-- The fields of a record in the order of their names; a field that is not given is `none`. -/
def fields? (names : List String) : Json → Option (List (Option Json))
  | .array items =>
    if items.length ≤ names.length then some (names.mapIdx fun i _ => items[i]?) else none
  | .object members =>
    if members.all fun (key, _) => (text? key).isSome
      then names.mapM fun name => lookup? (isNamed name) members else none
  | _ => none

/-- Whether a value stands for nothing; where values are gathered before they are read, an empty
object does too. -/
def isNothing (gathered : Bool) : Json → Bool
  | .null => true
  | .object [] => gathered
  | _ => false

def named? {α : Type} (gathered : Bool) (table : List (String × α)) : Json → Option α
  | .string s => (table.find? fun (name, _) => isNamed name s).map (·.2)
  | .object [(key, value)] =>
    if isNothing gathered value
      then (table.find? fun (name, _) => isNamed name key).map (·.2) else none
  | _ => none

def optional? {α : Type} (read : Json → Option α) : Json → Option (Option α)
  | .null => some none
  | value => (read value).map some

/-- A field that has a value of its own when it is not given. -/
def fieldOr? {α : Type} (absent : α) (read : Json → Option α) : Option Json → Option α
  | none => some absent
  | some value => read value

def asFloat? : Json → Option Float
  | .number n => float? n
  | _ => none

def asNatBelow? (bound : Nat) : Json → Option Nat
  | .number n => natBelow? bound n
  | _ => none

def asInt32? : Json → Option Int32
  | .number n => int32? n
  | _ => none

def asText? : Json → Option String
  | .string s => text? s
  | _ => none

def asArray? : Json → Option (List Json)
  | .array items => some items
  | _ => none

mutual

/-- Whether a value can be gathered: its strings are texts, its numbers are in range, and it is not
nested too deep. -/
def isReadable (depth : Nat) : Json → Bool
  | .null | .bool _ => true
  | .number n => (float? n).isSome
  | .string s => (text? s).isSome
  | .array items => 0 < depth && areReadable (depth - 1) items
  | .object members => 0 < depth && areMembersReadable (depth - 1) members

def areReadable (depth : Nat) : List Json → Bool
  | [] => true
  | item :: rest => isReadable depth item && areReadable depth rest

def areMembersReadable (depth : Nat) : List (List Piece × Json) → Bool
  | [] => true
  | (key, value) :: rest =>
    (text? key).isSome && isReadable depth value && areMembersReadable depth rest

end

end MotionScript.Json
