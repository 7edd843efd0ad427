import MotionScript.Disk.Fault
import MotionScript.Graph.Payload

/-!
# Failures

Why an instruction, a plan, an execution or a configuration is refused. A failure is a cause;
`message` words it in full, and `hint` says it in a sentence fit for speech, which never shows a
path or a detail. Only faults of the configuration and of the system stop the program, all others
end the current instruction.
-/
namespace MotionScript

/-- Why a line or a request makes no node. -/
inductive Malformation
  | noDistance (line : String) (motion : Motion)
  | noVelocity (line : String)
  | noMotion (line : String)
  | noPlanName (keyword : String)
  | opensNoBlock (kind : NodeKind)
  | noHeader (kind : NodeKind)
  | described (detail : String)
  deriving DecidableEq, Repr

/-- Why a plan does not describe a program. -/
inductive PlanFault
  | version (found expected : Nat)
  | noNodes
  | ownedEntry
  | rootNode (index : Nat)
  | missingChild (index child : Nat)
  | noOwner (index : Nat)
  | inconsistentOwner (index owner : Nat)
  | ownershipCycle (index : Nat)
  deriving DecidableEq, Repr

/-- Why a plan cannot be stored or restored. -/
inductive PersistenceFault
  | invalid (fault : PlanFault)
  | invalidName (name : String)
  | unknownName (name : String)
  | unreadableText
  | noDirectory (cause : Disk.Fault)
  | unwritable (path : String) (cause : Disk.Fault)
  | unreadable (path : String) (cause : Disk.Fault)
  | described (detail : String)
  deriving DecidableEq, Repr

inductive ConfigFault
  | unreadable (cause : Disk.Fault)
  | unreadableText
  | logLevel (level : String)
  | scale (value : Float)
  | noConfigDirectory (cause : Disk.Fault)
  | noDataDirectory (cause : Disk.Fault)
  | unwritable (cause : Disk.Fault)
  | described (detail : String)

inductive Failure
  | malformed (cause : Malformation)
  | unbalancedBlock
  | persistence (cause : PersistenceFault)
  | emptyGraph
  | cancelled
  | config (cause : ConfigFault)
  | system (detail : String)

def Malformation.message : Malformation → String
  | .noDistance line motion => s!"'{line}' needs a distance for {motion.name}"
  | .noVelocity line => s!"'{line}' mentions velocity without a value"
  | .noMotion line => s!"'{line}' names no motion"
  | .noPlanName keyword => s!"{keyword} needs a plan name"
  | .opensNoBlock kind => s!"{kind.name} does not open a block"
  | .noHeader kind => s!"{kind.name} is not a block header"
  | .described detail => detail

def PlanFault.message : PlanFault → String
  | .version found expected => s!"Unsupported plan version {found} (expected {expected})"
  | .noNodes => "Plan has no nodes"
  | .ownedEntry => "Plan entry node must not have an owner"
  | .rootNode index => s!"Node {index} is a root sentinel"
  | .missingChild index child => s!"Node {index} references missing child {child}"
  | .noOwner index => s!"Node {index} has no owner"
  | .inconsistentOwner index owner => s!"Node {index} has an inconsistent owner {owner}"
  | .ownershipCycle index => s!"Ownership cycle through node {index}"

def PersistenceFault.message : PersistenceFault → String
  | .invalid fault => fault.message
  | .invalidName name => s!"Invalid plan name '{name}'"
  | .unknownName name => s!"No plan named '{name}'"
  | .unreadableText => "Failed to parse plan: the text is not a plan"
  | .noDirectory cause => s!"Failed to create plan directory: {cause.message}"
  | .unwritable path cause => s!"Failed to write {path}: {cause.message}"
  | .unreadable path cause => s!"Failed to read {path}: {cause.message}"
  | .described detail => detail

/-- The levels of logging, from the quietest. -/
def logLevels : List String := ["error", "warn", "info", "debug", "trace"]

def ConfigFault.message : ConfigFault → String
  | .unreadable cause => s!"Failed to read config file: {cause.message}"
  | .unreadableText => "Failed to parse config: the text is not a configuration"
  | .logLevel level =>
      s!"Invalid log level '{level}'. Must be one of: " ++ ", ".intercalate logLevels
  | .scale value => s!"actuation.scale must be positive, got {Number.display value}"
  | .noConfigDirectory cause => s!"Failed to create config directory: {cause.message}"
  | .noDataDirectory cause => s!"Failed to create data directory: {cause.message}"
  | .unwritable cause => s!"Failed to write config file: {cause.message}"
  | .described detail => detail

namespace Failure

def message : Failure → String
  | .malformed cause => "Malformed instruction: " ++ cause.message
  | .unbalancedBlock => "Block end without a matching open block"
  | .persistence cause => "Persistence failure: " ++ cause.message
  | .emptyGraph => "Nothing to execute: the instruction graph is empty"
  | .cancelled => "Execution cancelled"
  | .config cause => "Configuration error: " ++ cause.message
  | .system detail => "IO error: " ++ detail

def hint : Failure → String
  | .malformed _ => "I did not understand that instruction. Please give a direction and a distance"
  | .unbalancedBlock => "There is no open loop or condition to end"
  | .persistence _ => "I could not save or load that plan"
  | .emptyGraph => "There are no instructions to execute yet"
  | .cancelled => "Execution was interrupted"
  | .config _ => "Check your config.toml file for errors"
  | .system _ => "File system operation failed"

def isRecoverable : Failure → Bool
  | .config _ | .system _ => false
  | _ => true

end Failure
end MotionScript
