import Chip8.CommandLine.Options
import Chip8.Play.Console
import Chip8.Play.Layout
import Chip8.Storage.SettingsFile

/-!
# Program

Plays a program line by line: a line of input is a tenth of a second, after which the screen is
printed if it was shown anew.  Settings and saves are files; they are taken onto the disk of the
session before they are needed and brought back when they have changed.
-/

namespace Chip8.Program

/-- Where the session's disk has the settings. -/
def settingsPath : Path := ⟨"/settings"⟩

/-- Where the session's disk has the saves. -/
def savesPath : Path := ⟨"/saves"⟩

/-- A file put on the disk, unless it cannot be read. -/
def takeIn (d : Disk) (path : Path) (file : String) : IO Disk := do
  try
    let bytes ← IO.FS.readBinFile file
    return (d.write path bytes.toList).toOption.getD d
  catch _ => return d

/-- A file of the disk brought back, if it was not there before with the same contents. -/
def bringBack (before after : Disk) (path : Path) (file : String) : IO Unit := do
  match after.find? path with
  | some (.file bytes) =>
    if before.find? path ≠ some (.file bytes) then IO.FS.writeBinFile file ⟨bytes.toArray⟩
  | _ => pure ()

/-- The file that the selected slot stands for. -/
def slotFile (settings : Settings) (slots : Slots) : String :=
  s!"{settings.slotDirectory}/{slots.fileName slots.selected}"

/-- The files put on the disk that a turn may look at: those of the selected slot and the slots next
to it. -/
def takeSlots (settings : Settings) (slots : Slots) (d : Disk) : IO Disk :=
  [slots, slots.selectNext, slots.selectPrevious?.getD slots].foldlM
    (fun d slots => takeIn d (slots.path slots.selected) (slotFile settings slots)) d

/-- Random numbers from a seed, or else numbers that nobody knows. -/
def randomOf (seed : Option UInt64) : IO Random := do
  match seed with
  | some seed => return .ofSeed seed
  | none =>
    let bytes ← IO.getRandomBytes 32
    return ⟨Vector.ofFn fun i => bytes.toList[i.val]?.getD 0, 0, 0⟩

/-- What stays the same from line to line. -/
structure Play where
  settings : Settings
  limit : Option Nat

/-- Keys typed at once, and turns after that.  Around a command the disk has what the save files
have. -/
def Play.turns (p : Play) (c : Console) (keys : List Key) (count : Nat) :
    IO (Option (Ending × Console)) := do
  let commands := keys.any (·.command?.isSome)
  let slots := c.session.slots
  let disk ← if commands then takeSlots p.settings slots c.session.disk else pure c.session.disk
  let controls :=
    match c.controls with
    | .keyboard k => .keyboard (k.type keys)
    | .script s => .script s
  let c : Console := { session := { c.session with disk }, controls }
  let ended := c.run p.limit none (List.replicate count c.session.cyclePeriod)
  if let some (_, later) := ended then
    if commands then
      IO.FS.createDirAll p.settings.slotDirectory
      bringBack disk later.session.disk (slots.path slots.selected) (slotFile p.settings slots)
  return ended

/-- A tenth of a second.  Each command has a turn of its own, and the other keys come after. -/
def Play.line (p : Play) (c : Console) (keys : List Key) : IO (Option (Ending × Console)) := do
  let mut c := c
  for key in keys do
    if key.command?.isSome then
      match ← p.turns c [key] 1 with
      | some (.stillRunning, later) => c := later
      | ended => return ended
  p.turns c (keys.filter (·.command?.isNone)) (max 1 (p.settings.cyclesPerSecond.toNat / 10))

/-- Prints the last picture if it is new, and rings if the tone has begun. -/
def report (before after : Session) : IO Unit := do
  if before.tone.starts ≠ after.tone.starts then IO.print "\x07"
  if before.display.shown ≠ after.display.shown then
    if let some picture := after.display.last then
      for row in picture.screen.lines do
        IO.println row
      IO.println picture.status

/-- Line after line until the play ends.  After the last line it goes on only if it has a limit. -/
partial def Play.loop (p : Play) (c : Console) : IO UInt32 := do
  let text ← (← IO.getStdin).getLine
  if text.isEmpty ∧ p.limit.isNone then return 0
  let names := text.toList.splitBy (fun a b => a.isWhitespace == b.isWhitespace)
  let keys := names.filterMap fun name =>
    if name.any (·.isWhitespace) then none else some (Key.ofName (String.ofList name))
  match ← p.line c keys with
  | none =>
    IO.eprintln "the machine is damaged"
    return 1
  | some (ending, later) =>
    report c.session later.session
    match ending with
    | .stillRunning => p.loop later
    | .finished => return 0
    | .failed (.fault f) =>
      IO.eprintln f.message
      return 1
    | .failed (.device call) =>
      IO.eprintln s!"{call.name} broke"
      return 1

/-- The play that a command line asks for, with its settings, random numbers, program and disk.
There is none where a machine or its slots cannot be had at all. -/
def begin? (o : Options) (settings : Settings) (random : Random) (program : List UInt8)
    (disk : Disk) : Option (Except Failure (Play × Session)) := do
  let settings := { settings with
    hiRes := settings.hiRes || o.hiRes
    superChip := settings.superChip || o.superChip }
  let slots ← Slots.open? savesPath o.programName settings.slotCount
  match ← (Machine.fresh settings.mode random).load program with
  | .error problem => return .error (.load problem)
  | .ok machine =>
    let session ← Session.start settings machine slots disk
    return session.map (⟨settings, o.limit.map (·.toNat)⟩, ·)

/-- Plays what a command line asks for. -/
def start (o : Options) : IO UInt32 := do
  let blank ← takeIn (Disk.blank.makeDirectories savesPath).2 settingsPath o.settings
  let (settings, disk) := Settings.readOrCreate blank settingsPath
  bringBack blank disk settingsPath o.settings
  match settings with
  | .error failure =>
    IO.eprintln failure.message
    return 1
  | .ok settings =>
    let random ← randomOf o.seed
    let program ← IO.FS.readBinFile o.program
    match begin? o settings random program.toList disk with
    | some (.ok (play, session)) =>
      let disk ← takeSlots settings session.slots disk
      play.loop ⟨{ session with disk }, .keyboard .idle⟩
    | some (.error failure) =>
      IO.eprintln failure.message
      return 1
    | none => return 1

end Chip8.Program

open Chip8 in
def main (arguments : List String) : IO UInt32 := do
  if arguments.any (["-h", "--help"].contains ·) then
    IO.println Options.usage
    return 0
  match Options.ofArguments arguments with
  | .ok options => Program.start options
  | .error problem =>
    IO.eprintln problem.message
    IO.eprintln Options.usage
    return 2
