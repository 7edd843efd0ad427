import MotionScript.Disk.Fault
import MotionScript.Text.Split

/-!
# Files and directories

A disk maps places to files and directories. A place is the list of names on the way from the root.
Paths are texts: `/` separates names, `.` stays where it is, `..` goes back, and a path that does
not begin with `/` starts at the working directory. Whatever stands on the way to the last name must
be a directory.
-/
namespace MotionScript

inductive Disk.Entry
  | directory
  | file (contents : String)
  deriving DecidableEq, Repr

structure Disk where
  entries : List (List String × Disk.Entry) := []
  /-- The place at which relative paths start. -/
  working : List String := []

namespace Disk

def isAbsolute (path : String) : Bool := path.toList.head? == some '/'

def endsOpen (path : String) : Bool := path.toList.getLast? == some '/'

/-- A path continued by another, which replaces it when it begins at the root. -/
def join (base path : String) : String :=
  if isAbsolute path then path
  else if base.isEmpty || endsOpen base then base ++ path
  else base ++ "/" ++ path

def names (path : String) : List String :=
  ((Text.splitAt '/' path.toList).filter (· ≠ [])).map String.ofList

/-- The names of a path to something that is there. A path that ends in a separator goes on to the
same directory. -/
def steps (path : String) : List String := names path ++ if endsOpen path then ["."] else []

def maxName : Nat := 255

/-- What stands at a place; the root is a directory. -/
def entry? (d : Disk) (place : List String) : Option Entry :=
  if place = [] then some .directory else (d.entries.find? (·.1 == place)).map (·.2)

def follow (d : Disk) (place : List String) : List String → Except Fault (List String)
  | [] => .ok place
  | name :: rest =>
    match d.entry? place with
    | none => .error .notFound
    | some (.file _) => .error .notDirectory
    | some .directory =>
      if name = "." then d.follow place rest
      else if name = ".." then d.follow place.dropLast rest
      else if maxName < name.utf8ByteSize then .error .nameTooLong
      else d.follow (place ++ [name]) rest

def locate (d : Disk) (path : String) (names : List String) : Except Fault (List String) :=
  if path.toList.contains '\x00' then .error .nulInName
  else if path.isEmpty then .error .notFound
  else d.follow (if isAbsolute path then [] else d.working) names

def find (d : Disk) (path : String) : Except Fault Entry := do
  let place ← d.locate path (steps path)
  match d.entry? place with
  | some entry => return entry
  | none => throw .notFound

def exists? (d : Disk) (path : String) : Bool := (d.find path).isOk

def isDirectory (d : Disk) (path : String) : Bool := d.find path matches .ok .directory

def read (d : Disk) (path : String) : Except Fault String := do
  match ← d.find path with
  | .file contents => return contents
  | .directory => throw .isDirectory

def put (d : Disk) (place : List String) (entry : Entry) : Disk :=
  { d with entries := d.entries.filter (·.1 != place) ++ [(place, entry)] }

def write (d : Disk) (path contents : String) : Except Fault Disk := do
  let place ← d.locate path (steps path)
  match d.entry? place with
  | some .directory => throw .isDirectory
  | _ => return d.put place (.file contents)

def makeDirectory (d : Disk) (path : String) (names : List String) : Except Fault Disk := do
  let place ← d.locate path names
  match d.entry? place with
  | some _ => throw .exists
  | none => return d.put place .directory

/-- Makes a directory and whatever is missing on the way; the names of the path are given from the
last to the first. -/
def makeMissing (path : String) : List String → Disk → Except Fault Disk
  | [], d => .ok d
  | last :: rest, d =>
    let names := (last :: rest).reverse
    let settle (d : Disk) (fault : Fault) : Except Fault Disk :=
      match (d.locate path names).map d.entry? with
      | .ok (some .directory) => .ok d
      | _ => .error fault
    match d.makeDirectory path names with
    | .ok d => .ok d
    | .error .notFound =>
      match makeMissing path rest d with
      | .error fault => .error fault
      | .ok d =>
        match d.makeDirectory path names with
        | .ok d => .ok d
        | .error fault => settle d fault
    | .error fault => settle d fault

/-- Makes a directory and whatever is missing on the way to it, unless it is there; the empty path
asks for nothing. -/
def makeDirectories (d : Disk) (path : String) : Except Fault Disk :=
  if path.isEmpty then .ok d else makeMissing path ((names path).filter (· != ".")).reverse d

def filesIn (d : Disk) (path : String) : List (String × String) :=
  match d.locate path (steps path) with
  | .error _ => []
  | .ok place => d.entries.filterMap fun (stand, entry) =>
    match entry, stand.getLast? with
    | .file contents, some name => if stand.dropLast = place then some (name, contents) else none
    | _, _ => none

end Disk
end MotionScript
