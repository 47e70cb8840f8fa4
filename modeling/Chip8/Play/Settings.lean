import Chip8.Json.Record
import Chip8.Machine.State

/-!
# Settings

Rates, sizes and modes of an emulator, and their written form: a record with a line for each
setting.  A setting that is missing takes its default; five of them have to be above zero.
-/

namespace Chip8

structure Settings where
  cyclesPerSecond : UInt32
  timerUpdatesPerSecond : UInt32
  /-- Snapshots recorded per second. -/
  rewindFrequency : UInt32
  /-- Snapshots kept. -/
  rewindBufferSize : UInt64
  slotCount : UInt64
  slotDirectory : String
  hiRes : Bool
  superChip : Bool
  deriving DecidableEq, Repr

/-- A setting that has to be above zero. -/
inductive Setting where
  | cyclesPerSecond
  | timerUpdatesPerSecond
  | rewindFrequency
  | rewindBufferSize
  | slotCount
  deriving DecidableEq, Repr

/-- The name of a setting in the written form. -/
def Setting.name : Setting → String
  | cyclesPerSecond => "cycles_per_second"
  | timerUpdatesPerSecond => "timer_updates_per_second"
  | rewindFrequency => "rewind_frequency"
  | rewindBufferSize => "rewind_buffer_size"
  | slotCount => "savestate_slots"

namespace Settings

def default : Settings where
  cyclesPerSecond := 500
  timerUpdatesPerSecond := 60
  rewindFrequency := 60
  rewindBufferSize := 600
  slotCount := 6
  slotDirectory := "Savestates"
  hiRes := false
  superChip := false

def mode (s : Settings) : Mode := ⟨s.hiRes, s.superChip⟩

/-- The number that a setting has. -/
def valueOf (s : Settings) : Setting → Nat
  | .cyclesPerSecond => s.cyclesPerSecond.toNat
  | .timerUpdatesPerSecond => s.timerUpdatesPerSecond.toNat
  | .rewindFrequency => s.rewindFrequency.toNat
  | .rewindBufferSize => s.rewindBufferSize.toNat
  | .slotCount => s.slotCount.toNat

/-- The first setting that is zero and must not be. -/
def firstZero? (s : Settings) : Option Setting :=
  [.cyclesPerSecond, .timerUpdatesPerSecond, .rewindFrequency, .rewindBufferSize, .slotCount].find?
    (s.valueOf · == 0)

/-! ## Written form -/

open Json in
/-- The settings in the order in which they are written, each with its default. -/
def fields : Fields [UInt32, UInt32, UInt32, UInt64, UInt64, String, Bool, Bool] :=
  .cons Setting.cyclesPerSecond.name .uint32 default.cyclesPerSecond <|
  .cons Setting.timerUpdatesPerSecond.name .uint32 default.timerUpdatesPerSecond <|
  .cons Setting.rewindFrequency.name .uint32 default.rewindFrequency <|
  .cons Setting.rewindBufferSize.name .uint64 default.rewindBufferSize <|
  .cons Setting.slotCount.name .uint64 default.slotCount <|
  .cons "savestate_dir" .text default.slotDirectory <|
  .cons "hi_res" .bool default.hiRes <|
  .cons "super_chip" .bool default.superChip .nil

/-- The settings with a line each. -/
def write (s : Settings) : List UInt8 :=
  fields.writeLines (s.cyclesPerSecond, s.timerUpdatesPerSecond, s.rewindFrequency,
    s.rewindBufferSize, s.slotCount, s.slotDirectory, s.hiRes, s.superChip, ())

/-- The settings that a text gives, zero or not. -/
def parse (text : List UInt8) : Except Json.Problem Settings :=
  (Json.parse fields.read text).map fun
    | (cyclesPerSecond, timerUpdatesPerSecond, rewindFrequency, rewindBufferSize, slotCount,
        slotDirectory, hiRes, superChip, ()) =>
      { cyclesPerSecond, timerUpdatesPerSecond, rewindFrequency, rewindBufferSize, slotCount,
        slotDirectory, hiRes, superChip }

end Settings

end Chip8
