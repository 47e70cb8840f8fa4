import Chip8.Random.ChaCha

/-!
# Random numbers

A generator is a place in a stream of 32-bit words: a key, a stream number and the position of the
next word.  Block `k` of the ChaCha stream holds the words `16 * k` to `16 * k + 15`.  There are
`2 ^ 64` blocks, so positions have 68 bits and the stream starts over after the last one.
-/

namespace Chip8

structure Random where
  seed : ChaCha.Key
  stream : UInt64
  position : BitVec 68
  deriving DecidableEq, Repr

namespace Random

/-! ## Seeds -/

/-- The next state of the sequence that stretches a number to a key. -/
def stretch (state : UInt64) : UInt64 :=
  state * 6364136223846793005 + 11634580027462260723

/-- The word that a state of the sequence yields: its mixed high bits, rotated by its top five. -/
def scramble (state : UInt64) : UInt32 :=
  let mixed := (((state >>> 18) ^^^ state) >>> 27).toUInt32
  let amount := (state >>> 59).toUInt32
  (mixed >>> amount) ||| (mixed <<< ((32 - amount) % 32))

/-- The state after `count` steps of the sequence. -/
def stretched (number : UInt64) : Nat → UInt64
  | 0 => number
  | count + 1 => stretch (stretched number count)

/-- The key that a number stands for: eight words of the sequence, low byte first. -/
def keyOf (number : UInt64) : ChaCha.Key :=
  Vector.ofFn fun i =>
    (scramble (stretched number (i.val / 4 + 1)) >>> UInt32.ofNat (8 * (i.val % 4))).toUInt8

/-- The generator that a number seeds, at its first word. -/
def ofSeed (number : UInt64) : Random := ⟨keyOf number, 0, 0⟩

/-! ## Drawing -/

/-- The word at a position of the stream. -/
def wordAt (seed : ChaCha.Key) (stream : UInt64) (position : BitVec 68) : UInt32 :=
  (ChaCha.block seed stream (UInt64.ofNat (position.toNat / 16))).getD (position.toNat % 16) 0

/-- The low byte of the next word, which is used up. -/
def byte (r : Random) : UInt8 × Random :=
  ((wordAt r.seed r.stream r.position).toUInt8, { r with position := r.position + 1 })

end Random

end Chip8
