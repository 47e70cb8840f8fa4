import Chip8.Storage.SaveFile

/-!
# Save slots

A numbered row of places for one program's machines, each a file in a common directory.  A save is
written beside its slot and then renamed over it, so one that fails leaves the slot as it was.
-/

namespace Chip8

structure Slots where
  directory : Path
  program : String
  count : UInt64
  selected : UInt64
  deriving DecidableEq, Repr

namespace Slots

/-- Slots of which the first is selected; there has to be one. -/
def open? (directory : Path) (program : String) (count : UInt64) : Option Slots :=
  if count = 0 then none else some ⟨directory, program, count, 0⟩

/-! ## Selection -/

/-- The next slot, or the first after the last. -/
def selectNext (s : Slots) : Slots := { s with selected := (s.selected + 1) % s.count }

/-- The slot before, or the last before the first.  The sum has to fit 64 bits, hence `none`. -/
def selectPrevious? (s : Slots) : Option Slots :=
  if s.selected.toNat + s.count.toNat < UInt64.size then
    some { s with selected := (s.selected + s.count - 1) % s.count }
  else none

/-! ## Files -/

/-- The name of a slot's file. -/
def fileName (s : Slots) (slot : UInt64) : String := s!"{s.program}_{slot}.sav"

def path (s : Slots) (slot : UInt64) : Path := s.directory.join (s.fileName slot)

/-- Where a save is written before it takes its slot. -/
def stagingPath (s : Slots) (slot : UInt64) : Path := s.directory.join (s.fileName slot ++ ".tmp")

/-- Whether no file is in the slot. -/
def isEmpty (s : Slots) (d : Disk) (slot : UInt64) : Bool := !d.isFile (s.path slot)

/-- The bytes that a save puts into its slot. -/
def contents (s : Slots) (m : Machine) : List UInt8 := SaveFile.write ⟨s.program, m⟩

/-- The bytes written to the staging path and renamed.  A staging file that cannot be written is
removed. -/
def replace (s : Slots) (d : Disk) (slot : UInt64) (bytes : List UInt8) :
    Except DiskError Unit × Disk :=
  match d.write (s.stagingPath slot) bytes with
  | .error problem => (.error problem, (d.remove (s.stagingPath slot)).toOption.getD d)
  | .ok staged =>
    match staged.rename (s.stagingPath slot) (s.path slot) with
    | .error problem => (.error problem, staged)
    | .ok d => (.ok (), d)

/-- A machine kept in a slot, in place of the one there. -/
def save (s : Slots) (d : Disk) (slot : UInt64) (m : Machine) : Except Failure Unit × Disk :=
  if s.count ≤ slot then (.error (.slotOutOfRange slot s.count), d)
  else
    match d.makeDirectories s.directory with
    | (.error problem, d) => (.error (.disk problem), d)
    | (.ok (), d) =>
      let (outcome, d) := s.replace d slot (s.contents m)
      (outcome.mapError .disk, d)

/-- The machine kept in a slot, whatever program it names. -/
def load (s : Slots) (d : Disk) (slot : UInt64) : Except Failure Machine :=
  if s.count ≤ slot then .error (.slotOutOfRange slot s.count)
  else
    match d.find? (s.path slot) with
    | some (.file bytes) => (SaveFile.read bytes).map (·.machine)
    | _ => .error (.slotEmpty slot)

end Slots

end Chip8
