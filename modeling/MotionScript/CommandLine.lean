/-!
# Command lines

A command line names a command, which may have an argument, and options can stand before the command
and after it. Words are read from left to right. An option that wants a value takes the next word,
unless that looks like an option itself; what was taken is checked when the next thing is read, so
of two faults the one further to the right can be the one that is reported. After `--` nothing is an
option. An option may stand once before the command and once after it, and then the value after the
command counts.
-/
namespace MotionScript

inductive Command
  | session
  | run (script : String)
  | showPlan (name : String)
  deriving DecidableEq, Repr

structure CommandLine.Options where
  json : Bool := false
  log : Option String := none
  config : Option String := none
  deriving DecidableEq, Repr

structure CommandLine where
  options : CommandLine.Options
  command : Command
  deriving DecidableEq, Repr

namespace CommandLine

inductive Fault
  | helpWanted
  | versionWanted
  | nothingGiven
  | commandMissing
  | commandUnknown
  | wordUnknown
  | argumentMissing
  | valueMissing
  | valueUnneeded
  | repeated
  deriving DecidableEq, Repr

inductive Verb | session | run | showPlan deriving DecidableEq, Repr

def Verb.ofName? : String → Option Verb
  | "session" => some .session
  | "run" => some .run
  | "show" => some .showPlan
  | _ => none

def helpName : String := "help"

/-- What wants a value. -/
inductive Slot | log | config | argument deriving DecidableEq, Repr

/-- The words read so far before the command, or after it. -/
structure Part where
  /-- The command, in the part after it. -/
  verb : Option Verb
  options : Options := {}
  argument : Option String := none
  /-- What was read last, with its value if that has been read, and has not been checked. -/
  pending : Option (Slot × Option String) := none
  /-- Whether the argument has been read. -/
  filled : Bool := false
  /-- Whether nothing more is an option. -/
  plainOnly : Bool := false

inductive Shape
  | divider
  | long (name : String) (value : Option String)
  | short (letter : Char)
  | plain
  deriving DecidableEq, Repr

def Shape.of (word : String) : Shape :=
  match word.toList with
  | ['-', '-'] => .divider
  | '-' :: '-' :: rest =>
    let (name, value) := rest.span (· ≠ '=')
    .long (.ofList name) (if value = [] then none else some (.ofList (value.drop 1)))
  | '-' :: letter :: _ => .short letter
  | _ => .plain

namespace Part

def isOpen (p : Part) : Bool := p.pending matches some (_, none)

def settle (p : Part) : Except Fault Part :=
  let settled := { p with pending := none }
  match p.pending with
  | none => .ok p
  | some (_, none) => .error .valueMissing
  | some (.log, some value) =>
    if p.options.log.isSome then .error .repeated
    else .ok { settled with options := { p.options with log := some value } }
  | some (.config, some value) =>
    if p.options.config.isSome then .error .repeated
    else if value.isEmpty then .error .valueMissing
    else .ok { settled with options := { p.options with config := some value } }
  | some (.argument, some value) =>
    if p.verb = some .run ∧ value.isEmpty then .error .valueMissing
      else .ok { settled with argument := some value }

def takeSlot (p : Part) (slot : Slot) (value : Option String) : Except Fault Part := do
  let p ← p.settle
  let p := { p with pending := some (slot, value) }
  if value.isSome then p.settle else return p

def wish (p : Part) (fault : Fault) (value : Option String) : Except Fault Part := do
  if value.isSome then throw .valueUnneeded
  let _ ← p.settle
  throw fault

def takeLong (p : Part) (value : Option String) : String → Except Fault Part
  | "json" => do
    if value.isSome then throw .valueUnneeded
    let p ← p.settle
    if p.options.json then throw .repeated
    return { p with options := { p.options with json := true } }
  | "log" => p.takeSlot .log value
  | "config" => p.takeSlot .config value
  | "help" => p.wish .helpWanted value
  | "version" => if p.verb = none then p.wish .versionWanted value else throw .wordUnknown
  | _ => throw .wordUnknown

def takeShort (p : Part) : Char → Except Fault Part
  | 'h' => p.wish .helpWanted none
  | 'V' => if p.verb = none then p.wish .versionWanted none else throw .wordUnknown
  | _ => throw .wordUnknown

/-- Takes a word that is no option. Only some commands have an argument, and just one. -/
def takePlain (p : Part) (word : String) : Except Fault Part :=
  match p.verb with
  | none =>
    .error (if p.plainOnly ∧ (word = helpName ∨ (Verb.ofName? word).isSome) then .wordUnknown
      else .commandUnknown)
  | some .session => .error .wordUnknown
  | some _ => do
    if p.filled then throw .wordUnknown
    let p ← p.settle
    return { p with pending := some (.argument, some word), filled := true }

def take (p : Part) (word : String) : Except Fault Part :=
  if p.plainOnly then p.takePlain word
  else
    match Shape.of word with
    | .divider => .ok { p with plainOnly := true }
    | .long name value => p.takeLong value name
    | .short letter => p.takeShort letter
    | .plain =>
      match p.pending with
      | some (slot, none) => .ok { p with pending := some (slot, some word) }
      | _ => p.takePlain word

def command (p : Part) : Except Fault Command :=
  match p.verb, p.argument with
  | none, _ => .error .commandMissing
  | some .session, _ => .ok .session
  | some .run, some script => .ok (.run script)
  | some .showPlan, some name => .ok (.showPlan name)
  | some _, none => .error .argumentMissing

end Part

def Options.merge (before after : Options) : Options where
  json := before.json || after.json
  log := after.log <|> before.log
  config := after.config <|> before.config

def help : List String → Fault
  | [] => .helpWanted
  | word :: rest =>
    if rest = [] ∧ (word = helpName ∨ (Verb.ofName? word).isSome) then .helpWanted
      else .commandUnknown

def readFrom (p : Part) : List String → Except Fault CommandLine
  | [] => do
    let p ← p.settle
    throw (if p.options = {} then .nothingGiven else .commandMissing)
  | word :: rest => do
    if p.plainOnly || p.isOpen then readFrom (← p.take word) rest
    else if word = helpName then throw (help rest)
    else
      match Verb.ofName? word with
      | none => readFrom (← p.take word) rest
      | some verb =>
        let after ← (← rest.foldlM Part.take { verb := some verb }).settle
        let command ← after.command
        let p ← p.settle
        return ⟨p.options.merge after.options, command⟩

def parse (words : List String) : Except Fault CommandLine := readFrom { verb := none } words

end CommandLine
end MotionScript
