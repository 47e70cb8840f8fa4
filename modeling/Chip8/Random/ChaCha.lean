import Chip8.Cells

/-!
# ChaCha stream

The ChaCha matrix has four rows of four 32-bit words: constants, a key of two rows, and a row with
a 64-bit block number and a 64-bit stream number.  A round adds, excludes and rotates down the four
columns at once.  Between rounds the rows are turned against each other, so that every other round
works on the diagonals.
-/

namespace Chip8.ChaCha

/-- A 32-byte key. -/
abbrev Key := Cells UInt8 32

/-- Four words side by side. -/
structure Row where
  first : UInt32
  second : UInt32
  third : UInt32
  fourth : UInt32
  deriving DecidableEq, Repr

structure Matrix where
  a : Row
  b : Row
  c : Row
  d : Row
  deriving DecidableEq, Repr

/-! ## Rows -/

/-- Rotation towards the high bit, by less than 32. -/
def rotateLeft (amount word : UInt32) : UInt32 :=
  (word <<< amount) ||| (word >>> (32 - amount))

namespace Row

def map (f : UInt32 → UInt32) (r : Row) : Row := ⟨f r.first, f r.second, f r.third, f r.fourth⟩

def zipWith (f : UInt32 → UInt32 → UInt32) (r s : Row) : Row :=
  ⟨f r.first s.first, f r.second s.second, f r.third s.third, f r.fourth s.fourth⟩

def add (r s : Row) : Row := r.zipWith (· + ·) s

/-- Exclusive or with another row, then a rotation of each word. -/
def mix (amount : UInt32) (r s : Row) : Row := (r.zipWith (· ^^^ ·) s).map (rotateLeft amount)

/-- The words moved by one place, the first to the end. -/
def turn (r : Row) : Row := ⟨r.second, r.third, r.fourth, r.first⟩

def toList (r : Row) : List UInt32 := [r.first, r.second, r.third, r.fourth]

end Row

/-! ## Rounds -/

namespace Matrix

/-- A round on the columns. -/
def columns (m : Matrix) : Matrix :=
  let a := m.a.add m.b
  let d := m.d.mix 16 a
  let c := m.c.add d
  let b := m.b.mix 12 c
  let a := a.add b
  let d := d.mix 8 a
  let c := c.add d
  ⟨a, b.mix 7 c, c, d⟩

/-- The diagonals brought into columns. -/
def slant (m : Matrix) : Matrix := ⟨m.a, m.b.turn, m.c.turn.turn, m.d.turn.turn.turn⟩

/-- The diagonals brought back. -/
def unslant (m : Matrix) : Matrix := ⟨m.a, m.b.turn.turn.turn, m.c.turn.turn, m.d.turn⟩

/-- A round on the columns, then one on the diagonals. -/
def doubleRound (m : Matrix) : Matrix := m.columns.slant.columns.unslant

def add (m n : Matrix) : Matrix := ⟨m.a.add n.a, m.b.add n.b, m.c.add n.c, m.d.add n.d⟩

/-- The words row after row. -/
def toList (m : Matrix) : List UInt32 := m.a.toList ++ m.b.toList ++ m.c.toList ++ m.d.toList

theorem length_toList (m : Matrix) : m.toList.length = 16 := rfl

theorem unslant_slant (m : Matrix) : m.slant.unslant = m := rfl

end Matrix

/-! ## Blocks -/

/-- The number of bytes, the low one first. -/
def number (bytes : List UInt8) : UInt32 :=
  bytes.foldr (fun byte high => high <<< 8 ||| byte.toUInt32) 0

/-- The row that starts at a byte of the key. -/
def keyRow (key : Key) (start : Nat) : Row :=
  let word (i : Nat) : UInt32 := number ((key.toList.drop (start + 4 * i)).take 4)
  ⟨word 0, word 1, word 2, word 3⟩

/-- The matrix before the rounds. -/
def start (key : Key) (stream block : UInt64) : Matrix where
  a := ⟨0x61707865, 0x3320646E, 0x79622D32, 0x6B206574⟩
  b := keyRow key 0
  c := keyRow key 16
  d := ⟨block.toUInt32, (block >>> 32).toUInt32, stream.toUInt32, (stream >>> 32).toUInt32⟩

/-- One block of key stream, from eight rounds. -/
def block (key : Key) (stream number : UInt64) : List UInt32 :=
  let m := start key stream number
  (m.doubleRound.doubleRound.doubleRound.doubleRound.add m).toList

theorem length_block (key : Key) (stream number : UInt64) :
    (block key stream number).length = 16 := rfl

end Chip8.ChaCha
