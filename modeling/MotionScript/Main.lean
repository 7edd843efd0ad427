import MotionScript.Commands

/-!
# The program

Here the commands meet the computer: words are taken from the command line, lines from the input,
and files from the file system, and sleeps are slept. What a line or a command does is decided in
the modules that are imported. A disk holds the files that have been looked at; after each line,
what is new on it is written.
-/
namespace MotionScript.Program

def say (printed : String) : IO Unit := do
  let out ← IO.getStdout
  out.putStr printed
  out.flush

def pathOf (place : List String) : String := "/" ++ "/".intercalate place

def look (place : List String) : IO (Option Disk.Entry) := do
  match ← (IO.FS.readFile (pathOf place)).toBaseIO with
  | .ok contents => return some (.file contents)
  | .error (.inappropriateType ..) => return some .directory
  | .error _ => return none

/-- Adds to a disk what stands at a path and on the way to it. -/
def observe (d : Disk) (path : String) : IO Disk := do
  let names := Disk.names path
  (List.range names.length).foldlM (fun d i => do
    match d.locate path (names.take (i + 1)) with
    | .error _ => return d
    | .ok place =>
      match d.entry? place, ← look place with
      | none, some entry => return d.put place entry
      | _, _ => return d) d

/-- Makes in the file system what a disk holds and an earlier one did not. -/
def flush (before after : Disk) : IO Unit :=
  after.entries.forM fun (place, entry) => do
    if before.entry? place ≠ some entry then
      match entry with
      | .directory => IO.FS.createDirAll (pathOf place)
      | .file contents => IO.FS.writeFile (pathOf place) contents

/-- A disk on which only the working directory has been looked at. -/
def initialDisk : IO Disk := do
  let working ← IO.currentDir
  observe { working := Disk.names working.toString } working.toString

/-- Carries out an execution turn by turn and rests in between. -/
partial def execute (s : Session) (e : Execution) (around : Surroundings) :
    IO (Report × Surroundings) := do
  let t := Execution.turn s.builder.graph s.settings e around
  say (spoken t.events)
  match t.move with
  | .onward e => execute s e t.surroundings
  | .rest duration e =>
    IO.sleep duration.toUInt32
    execute s e t.surroundings
  | .ended report => return (report, t.surroundings)

def process (s : Session) (line : String) : IO (Except Failure String × Session) := do
  match s.reply line with
  | .edited result s => return (result, s)
  | .execution =>
    match Execution.start s.builder.graph with
    | .error failure => return (.error failure, s)
    | .ok (e, _) =>
      say (spoken [.feedback Session.startText])
      let (report, surroundings) ← execute s e { s.surroundings with cancelled := false }
      return (.ok (s.conclusion report), { s with surroundings })

def handle (s : Session) (line : String) : IO (LineOutcome × Session) := do
  match Request.ofLine line with
  | .nothing => return (.goOn, s)
  | .shutdown => return (.shutdown, s)
  | .instruction line =>
    let s ← match s.store, s.fileRead? line with
      | .directory store disk, some path =>
        pure { s with store := .directory store (← observe disk path) }
      | _, _ => pure s
    let (result, after) ← process s line
    flush s.store.disk after.store.disk
    say (spoken [.feedback (after.answer result)])
    return (.goOn, after)

/-- Takes lines from a source until it has no more or one of them ends the session, and prints the
summary. -/
partial def converse (presentation : Presentation) (c : Conversation) : List String → IO UInt32
  | [] => do
    say (c.closing presentation)
    return 0
  | line :: rest => do
    let (outcome, session) ← handle c.session line
    converse presentation { c with session, lines := c.lines + 1 }
      (if outcome = .goOn then rest else [])

/-- Takes lines from the input as they are typed. -/
partial def listen (presentation : Presentation) (c : Conversation) : IO UInt32 := do
  let line ← (← IO.getStdin).getLine
  if line.isEmpty then converse presentation c []
  else
    let (outcome, session) ← handle c.session line
    let c := { c with session, lines := c.lines + 1 }
    if outcome = .goOn then listen presentation c else converse presentation c []

def fail (messages : List String) : IO UInt32 := do
  IO.eprintln ("Error: " ++ "\n\nCaused by:\n    ".intercalate messages)
  return 1

def configure (home : String) (options : CommandLine.Options) (d : Disk) : Config.Settled :=
  match options.config with
  | some path => Config.load home path d
  | none => Config.loadOrCreate home d

def observeConfig (home : String) (options : CommandLine.Options) (d : Disk) : IO Disk := do
  let d ← observe d (options.config.getD (Config.defaultPath home))
  match configure home options d with
  | .ok (c, _) => observe d c.dataDirectory
  | .error _ => return d

def carryOut (presentation : Presentation) (c : Config) (d : Disk) : Command → IO UInt32
  | .session => do
    say opening
    listen presentation { session := .ofConfig c d }
  | .run path => do
    let d ← observe d path
    match d.read path with
    | .error cause => fail [(CommandFault.unreadableScript path cause).message, cause.message]
    | .ok script => converse presentation { session := .ofConfig c d } (scriptLines script)
  | .showPlan name => do
    let d ← observe d (DirectoryStore.pathOf ⟨c.plansDirectory⟩ name)
    match (Command.showPlan name).carryOut 0 presentation c d "" with
    | .ok shown => do
      say ((shown.map (·.1)).getD "")
      return 0
    | .error (.unloadablePlan name cause) =>
      fail [(CommandFault.unloadablePlan name cause).message, cause.message]
    | .error fault => fail [fault.message]

def usage : String :=
  "Bow Navigational Instruction Interface\n\n" ++
  "Usage: bow [OPTIONS] <COMMAND>\n\n" ++
  "Commands:\n" ++
  "  session      Start an interactive instruction session\n" ++
  "  run <FILE>   Feed every line of a script through a session\n" ++
  "  show <NAME>  Print a saved plan without executing it\n\n" ++
  "Options:\n" ++
  "      --json           Output in JSON format\n" ++
  "      --log <LEVEL>    Set log level\n" ++
  "      --config <PATH>  Specify alternate configuration file\n" ++
  "  -h, --help           Print help\n" ++
  "  -V, --version        Print version\n"

/-- What is printed when a command line names no command. -/
def answerUsage : CommandLine.Fault → IO UInt32
  | .helpWanted => do
    say usage
    return 0
  | .versionWanted => do
    say "bow 0.1.0\n"
    return 0
  | _ => do
    IO.eprint usage
    return 2

end MotionScript.Program

open MotionScript Program in
def main (words : List String) : IO UInt32 := do
  match CommandLine.parse words with
  | .error fault => answerUsage fault
  | .ok line =>
    let home := (← IO.getEnv "HOME").getD "/"
    let d ← observeConfig home line.options (← initialDisk)
    match configure home line.options d with
    | .error cause => fail [(Failure.config cause).message]
    | .ok (c, after) =>
      flush d after
      carryOut (if line.options.json then .json else .text) c after line.command
