/-!
# Memory

4096 bytes: the font at 0x050, programs from 0x200 on.  Programs read everything, and their writes
below 0x200 are dropped.  An address counts modulo 4096, so a 16-bit address always names a byte.

A memory read from a file may hold any number of bytes.  Reading or writing a byte that it lacks
has no outcome, hence `none`.
-/

namespace Chip8

structure Memory where
  bytes : Array UInt8
  deriving DecidableEq, Repr

namespace Memory

/-- Number of addresses. -/
def size : Nat := 4096

/-- Where programs start; everything below is reserved. -/
def programStart : Nat := 0x200

/-- The longest program that fits. -/
def maxProgram : Nat := size - programStart

/-- Where the font starts. -/
def fontStart : Nat := 0x50

/-- Bytes of one glyph. -/
def glyphHeight : Nat := 5

/-- The sixteen digits, five rows each, drawn in the high half of the byte. -/
def font : Array UInt8 := #[
  0xF0, 0x90, 0x90, 0x90, 0xF0,
  0x20, 0x60, 0x20, 0x20, 0x70,
  0xF0, 0x10, 0xF0, 0x80, 0xF0,
  0xF0, 0x10, 0xF0, 0x10, 0xF0,
  0x90, 0x90, 0xF0, 0x10, 0x10,
  0xF0, 0x80, 0xF0, 0x10, 0xF0,
  0xF0, 0x80, 0xF0, 0x90, 0xF0,
  0xF0, 0x10, 0x20, 0x40, 0x40,
  0xF0, 0x90, 0xF0, 0x90, 0xF0,
  0xF0, 0x90, 0xF0, 0x10, 0xF0,
  0xF0, 0x90, 0xF0, 0x90, 0x90,
  0xE0, 0x90, 0xE0, 0x90, 0xE0,
  0xF0, 0x80, 0x80, 0x80, 0xF0,
  0xE0, 0x90, 0x90, 0x90, 0xE0,
  0xF0, 0x80, 0xF0, 0x80, 0xF0,
  0xF0, 0x80, 0xF0, 0x80, 0x80]

/-- Memory with the font and no program. -/
def blank : Memory where
  bytes := Array.replicate fontStart 0 ++ font ++ Array.replicate (size - fontStart - font.size) 0

/-! ## Reading -/

/-- The byte at an address. -/
def read? (m : Memory) (address : UInt16) : Option UInt8 :=
  m.bytes[address.toNat % size]?

/-- So many bytes from an address on. -/
def readMany? (m : Memory) (address : UInt16) : Nat → Option (List UInt8)
  | 0 => some []
  | count + 1 => do
    let byte ← m.read? address
    let later ← m.readMany? (address + 1) count
    return byte :: later

/-- The word whose high byte is at an address. -/
def word? (m : Memory) (address : UInt16) : Option UInt16 := do
  let high ← m.read? address
  let low ← m.read? (address + 1)
  return high.toUInt16 * 0x100 + low.toUInt16

/-- So many bytes from a place on, without wrapping round: `none` past the end. -/
def slice? (m : Memory) (start count : Nat) : Option (List UInt8) :=
  if start + count ≤ m.bytes.size then some (m.bytes.extract start (start + count)).toList else none

/-! ## Writing -/

/-- A running program writes a byte; below `programStart` nothing happens. -/
def write? (m : Memory) (address : UInt16) (byte : UInt8) : Option Memory :=
  let place := address.toNat % size
  if place < programStart then some m
  else if h : place < m.bytes.size then some ⟨m.bytes.set place byte h⟩
  else none

/-- Bytes written to successive addresses. -/
def writeMany? (m : Memory) (address : UInt16) : List UInt8 → Option Memory
  | [] => some m
  | byte :: later => do
    let m ← m.write? address byte
    m.writeMany? (address + 1) later

/-- Why a program was not loaded. -/
inductive LoadError where
  | oversize (length : Nat)
  deriving DecidableEq, Repr

/-- The program put at `programStart`.  One that does not fit changes nothing. -/
def load (m : Memory) (program : List UInt8) : Option (Except LoadError Memory) :=
  let stop := programStart + program.length
  if maxProgram < program.length then some (.error (.oversize program.length))
  else if stop ≤ m.bytes.size then
    some (.ok ⟨m.bytes.extract 0 programStart ++ program.toArray
      ++ m.bytes.extract stop m.bytes.size⟩)
  else none

/-- A program that comes in pieces, loaded when it is complete, with its length. -/
def loadPieces (m : Memory) (pieces : List (List UInt8)) :
    Option (Except LoadError (Nat × Memory)) :=
  (m.load pieces.flatten).map fun loaded => loaded.map (pieces.flatten.length, ·)

/-! ## Lemmas -/

theorem size_blank : blank.bytes.size = size := by simp [blank, font, fontStart, size]

theorem size_write? {m m' : Memory} {address : UInt16} {byte : UInt8}
    (h : m.write? address byte = some m') : m'.bytes.size = m.bytes.size := by
  unfold write? at h
  simp only at h
  split at h
  · cases h; rfl
  · split at h
    · cases h; simp
    · cases h

theorem size_writeMany? {m m' : Memory} {address : UInt16} {bytes : List UInt8}
    (h : m.writeMany? address bytes = some m') : m'.bytes.size = m.bytes.size := by
  induction bytes generalizing m address with
  | nil => cases h; rfl
  | cons byte later ih =>
    simp only [writeMany?, Option.bind_eq_bind, Option.bind_eq_some_iff] at h
    obtain ⟨m₁, h₁, h⟩ := h
    rw [ih h, size_write? h₁]

end Memory

end Chip8
