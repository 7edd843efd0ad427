import MotionScript.Disk.Tree
import MotionScript.Execution.Basic
import MotionScript.Text.Blank
import MotionScript.Toml.Reader

/-!
# Configurations

A configuration is a TOML document with a section for each part of the program; only the section
`core` must be there, and what a section leaves out has a default. A configuration that has been
read is settled before it is used: its level of logging and its scale are checked, a blank speech
command is none, and the data directory is made when it is missing. `loadOrCreate` writes the
defaults where there is no file yet.
-/
namespace MotionScript

structure Config where
  logLevel : String := "info"
  dataDirectory : String := "~/.bow"
  settings : Settings := {}
  speechCommand : Option String := none
  prompt : String := "What should I do next?"

namespace Config

/-- A configuration and the disk on which its directories stand. -/
abbrev Settled := Except ConfigFault (Config × Disk)

def plansDirectory (c : Config) : String := Disk.join c.dataDirectory "plans"

def readCore? (c : Config) (value : Toml) : Option Config := do
  let [level, directory] ← value.fields? ["log_level", "data_dir"] | none
  return { c with
    logLevel := ← level.elim (some c.logLevel) Toml.text?
    dataDirectory := ← directory.elim (some c.dataDirectory) Toml.text? }

def readActuation? (s : Settings) (value : Toml) : Option Settings := do
  let [scale, interval] ← value.fields? ["scale", "frame_interval_ms"] | none
  return { s with
    scale := ← scale.elim (some s.scale) Toml.number?
    frameInterval := ← interval.elim (some s.frameInterval) Toml.nat? }

def readExecutor? (s : Settings) (value : Toml) : Option Settings := do
  let [pause, bound] ← value.fields? ["until_poll_ms", "max_steps"] | none
  return { s with
    untilPause := ← pause.elim (some s.untilPause) Toml.nat?
    maxSteps := ← bound.elim (some s.maxSteps) Toml.nat? }

def readFeedback? (c : Config) (value : Toml) : Option Config := do
  let [command, prompt] ← value.fields? ["speech_command", "prompt"] | none
  return { c with
    speechCommand := ← command.elim (some none) (·.text?.map some)
    prompt := ← prompt.elim (some c.prompt) Toml.text? }

def ofEntries? (entries : Toml.Entries) : Option Config := do
  let part (name : String) := List.lookup name entries
  let c ← readCore? {} (← part "core")
  let s ← (part "actuation").elim (some c.settings) (readActuation? c.settings)
  let s ← (part "executor").elim (some s) (readExecutor? s)
  (part "feedback").elim (some { c with settings := s }) (readFeedback? { c with settings := s })

/-- A path in which a leading `~` stands for the home directory. -/
def expand (home path : String) : String :=
  match path.toList with
  | ['~'] => home
  | '~' :: '/' :: rest => Disk.join home (.ofList rest)
  | _ => path

/-- Checks a configuration, expands the path of its data directory, and makes that directory when
nothing stands there. -/
def settle (home : String) (c : Config) (d : Disk) : Settled := do
  if c.logLevel ∉ logLevels then throw (.logLevel c.logLevel)
  let scale := c.settings.scale
  unless Number.isFinite scale && 0 < scale do throw (.scale scale)
  let directory := expand home c.dataDirectory
  let d ← if d.exists? directory then pure d
    else (d.makeDirectories directory).mapError .noDataDirectory
  return ({ c with
    dataDirectory := directory
    speechCommand := c.speechCommand.filter fun command => !(Text.trim command.toList).isEmpty }, d)

def ofText (home content : String) (d : Disk) : Settled :=
  match (Toml.parse? content).bind ofEntries? with
  | none => .error .unreadableText
  | some c => c.settle home d

def load (home path : String) (d : Disk) : Settled :=
  match d.read path with
  | .error cause => .error (.unreadable cause)
  | .ok content => ofText home content d

/-- A number of a document, which always has a point. -/
def showNumber (x : Float) : String :=
  let digits := Number.display x
  if digits.toList.contains '.' then digits else digits ++ ".0"

def showLine (name value : String) : String := name ++ " = " ++ value ++ "\n"

def toToml (c : Config) : String :=
  "[core]\n" ++ showLine "log_level" (Toml.quoted c.logLevel) ++
    showLine "data_dir" (Toml.quoted c.dataDirectory) ++
  "\n[actuation]\n" ++ showLine "scale" (showNumber c.settings.scale) ++
  showLine "frame_interval_ms" (toString c.settings.frameInterval) ++
  "\n[executor]\n" ++ showLine "until_poll_ms" (toString c.settings.untilPause) ++
  showLine "max_steps" (toString c.settings.maxSteps) ++
  "\n[feedback]\n" ++
    (c.speechCommand.map fun command => showLine "speech_command" (Toml.quoted command)).getD "" ++
  showLine "prompt" (Toml.quoted c.prompt)

def ownDirectory (home : String) : String := Disk.join home ".bow"

def defaultPath (home : String) : String := Disk.join (ownDirectory home) "config.toml"

def create (home : String) (d : Disk) : Settled := do
  let d ← (d.makeDirectories (ownDirectory home)).mapError .noConfigDirectory
  let (c, d) ← settle home {} d
  let d ← (d.write (defaultPath home) c.toToml).mapError .unwritable
  return (c, d)

/-- The configuration at the default path, which is made when there is none. -/
def loadOrCreate (home : String) (d : Disk) : Settled :=
  if d.exists? (defaultPath home) then load home (defaultPath home) d else create home d

end Config
end MotionScript
