import Chip8.Cells
import Chip8.Machine.Memory
import Chip8.Machine.Screen
import Chip8.Machine.Timers
import Chip8.Random.Generator

/-!
# Machine

Everything a running program can see or change, the random numbers to come included.  A machine is
a value: keeping one is taking a snapshot, and going back to it is restoring that snapshot.
-/

namespace Chip8

/-- Which of the sixteen keys are held. -/
abbrev Keypad := Cells Bool 16

namespace Keypad

def released : Keypad := Vector.replicate 16 false

/-- The keypad with just the named keys held. -/
def ofKeys (keys : List (Fin 16)) : Keypad := Vector.ofFn fun key => keys.contains key

/-- The held keys in ascending order. -/
def heldKeys (keypad : Keypad) : List (Fin 16) := (List.finRange 16).filter keypad.get

/-- The lowest held key. -/
def lowest? (keypad : Keypad) : Option (Fin 16) := keypad.heldKeys.head?

theorem mem_heldKeys {keypad : Keypad} {key : Fin 16} :
    key ∈ keypad.heldKeys ↔ keypad.get key = true := by
  simp [heldKeys]

theorem lowest?_eq_none_iff {keypad : Keypad} :
    keypad.lowest? = none ↔ ∀ key : Fin 16, keypad.get key = false := by
  simp [lowest?, heldKeys]

end Keypad

/-- What stays fixed while a program runs.  `superChip` is carried along and changes nothing. -/
structure Mode where
  hiRes : Bool
  superChip : Bool
  deriving DecidableEq, Repr

structure Machine where
  memory : Memory
  registers : Cells UInt8 16
  /-- Address of the next instruction. -/
  counter : UInt16
  index : UInt16
  stack : Cells UInt16 16
  /-- Number of return addresses on the stack. -/
  depth : UInt8
  keypad : Keypad
  timers : Timers
  screen : Screen
  mode : Mode
  /-- The screen has changed since it was last shown. -/
  stale : Bool
  /-- The word fetched last. -/
  opcode : UInt16
  random : Random
  deriving DecidableEq, Repr

namespace Machine

/-- A machine without a program. -/
def fresh (mode : Mode) (random : Random) : Machine where
  memory := .blank
  registers := Vector.replicate 16 0
  counter := 0x200
  index := 0
  stack := Vector.replicate 16 0
  depth := 0
  keypad := .released
  timers := .stopped
  screen := .blank mode.hiRes
  mode := mode
  stale := false
  opcode := 0
  random := random

/-- A machine without a program whose random numbers come from a seed. -/
def ofSeed (mode : Mode) (seed : UInt64) : Machine := fresh mode (.ofSeed seed)

/-- The program put into memory; all else stays. -/
def load (m : Machine) (program : List UInt8) : Option (Except Memory.LoadError Machine) :=
  (m.memory.load program).map fun loaded => loaded.map fun memory => { m with memory }

def setKeypad (m : Machine) (keypad : Keypad) : Machine := { m with keypad }

/-- Both timers some ticks on. -/
def tickTimers (m : Machine) (ticks : Nat) : Machine := { m with timers := m.timers.tickBy ticks }

/-- Someone has shown the screen. -/
def markShown (m : Machine) : Machine := { m with stale := false }

/-- The screen is to be shown again, changed or not. -/
def markStale (m : Machine) : Machine := { m with stale := true }

def isSounding (m : Machine) : Bool := m.timers.isSounding

end Machine

end Chip8
