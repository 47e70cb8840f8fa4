import Chip8.Json.Reader
import Chip8.Machine.Cycle
import Chip8.Play.Settings
import Chip8.Storage.Disk

/-!
# Failures

Everything that can go wrong loading, running or keeping a machine, what the user is told about it,
and whether a front end may carry on.
-/

namespace Chip8

inductive Failure where
  | load (problem : Memory.LoadError)
  | fault (f : Fault)
  | slotEmpty (slot : UInt64)
  | slotOutOfRange (slot slots : UInt64)
  /-- A save file of another version. -/
  | incompatibleSave (version : UInt32)
  /-- A setting is zero. -/
  | settings (setting : Setting)
  | disk (problem : DiskError)
  | json (problem : Json.Problem)
  deriving DecidableEq, Repr

/-- The version of save files. -/
def saveVersion : UInt32 := 1

def Memory.LoadError.message : Memory.LoadError → String
  | oversize length => s!"program is {length} bytes, at most {maxProgram} fit in memory"

def Json.Problem.message : Json.Problem → String
  | truncated => "the text ends early"
  | malformed => "the text is not JSON"
  | unfit => "the text does not hold what it should"

namespace Failure

def message : Failure → String
  | load problem => problem.message
  | fault f => f.message
  | slotEmpty slot => s!"save slot {slot} is empty"
  | slotOutOfRange slot slots => s!"save slot {slot} does not exist ({slots} slots)"
  | incompatibleSave version =>
    s!"save file version {version} can't be read (expected {saveVersion})"
  | settings setting => s!"invalid configuration: {setting.name} must be above zero"
  | disk problem => problem.message
  | json problem => problem.message

/-- Conditions that a front end reports and carries on from. -/
def isRecoverable : Failure → Bool
  | load _ | slotEmpty _ | slotOutOfRange _ _ | incompatibleSave _ => true
  | _ => false

end Failure

end Chip8
