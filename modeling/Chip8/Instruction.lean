import Chip8.Cells

/-!
# Instruction set

Every instruction is one 16-bit word.  The top digit picks the family; families 0, 8, E and F are
split further on the low digit or byte.  `Instruction.decode` is `none` exactly on the words
outside the instruction set.

Operands are named as usual: `nnn` the low twelve bits, `nn` the low byte, `n` the low digit,
`x` and `y` the two digits in the middle.
-/

namespace Chip8

/-- Register number V0 to VF. -/
abbrev Register := Fin 16

/-- V0, from which BNNN counts. -/
abbrev Register.first : Register := lastDigit 0

/-- VF, which receives carries, borrows, shifted bits and sprite collisions. -/
abbrev Register.flag : Register := lastDigit 15

/-- What a skip instruction tests. -/
inductive Condition where
  | equalsByte (x : Register) (value : UInt8)
  | differsByte (x : Register) (value : UInt8)
  | equalsRegister (x y : Register)
  | differsRegister (x y : Register)
  /-- The key named by the low digit of VX is held. -/
  | keyHeld (x : Register)
  | keyReleased (x : Register)
  deriving DecidableEq, Repr

/-- The two-register operations of family 8. -/
inductive Operation where
  | copy
  | or
  | and
  | xor
  | add
  | subtract
  | shiftRight
  /-- VY minus VX. -/
  | subtractFrom
  | shiftLeft
  deriving DecidableEq, Repr

inductive Instruction where
  /-- Word 0NNN, a machine code routine, taken as a jump. -/
  | routine (target : UInt16)
  /-- Word 00E0. -/
  | clear
  /-- Word 00EE. -/
  | ret
  /-- Word 1NNN. -/
  | jump (target : UInt16)
  /-- Word 2NNN. -/
  | call (target : UInt16)
  /-- Words 3XNN, 4XNN, 5XY0, 9XY0, EX9E and EXA1. -/
  | skipIf (condition : Condition)
  /-- Word 6XNN. -/
  | set (x : Register) (value : UInt8)
  /-- Word 7XNN, without carry. -/
  | increase (x : Register) (value : UInt8)
  /-- Words 8XY0 to 8XY7 and 8XYE. -/
  | combine (operation : Operation) (x y : Register)
  /-- Word ANNN. -/
  | setIndex (address : UInt16)
  /-- Word BNNN, a jump V0 bytes past `base`. -/
  | jumpPast (base : UInt16)
  /-- Word CXNN. -/
  | random (x : Register) (mask : UInt8)
  /-- Word DXYN. -/
  | draw (x y : Register) (rows : Fin 16)
  /-- Word FX07. -/
  | readDelay (x : Register)
  /-- Word FX0A. -/
  | awaitKey (x : Register)
  /-- Word FX15. -/
  | setDelay (x : Register)
  /-- Word FX18. -/
  | setSound (x : Register)
  /-- Word FX1E. -/
  | advanceIndex (x : Register)
  /-- Word FX29. -/
  | pointAtGlyph (x : Register)
  /-- Word FX33. -/
  | storeDigits (x : Register)
  /-- Word FX55. -/
  | storeRegisters (x : Register)
  /-- Word FX65. -/
  | loadRegisters (x : Register)
  deriving DecidableEq, Repr

/-! ## Decoding -/

/-- The operation that the low digit of a family 8 word selects. -/
def Operation.ofDigit? : Nat → Option Operation
  | 0x0 => some .copy
  | 0x1 => some .or
  | 0x2 => some .and
  | 0x3 => some .xor
  | 0x4 => some .add
  | 0x5 => some .subtract
  | 0x6 => some .shiftRight
  | 0x7 => some .subtractFrom
  | 0xE => some .shiftLeft
  | _ => none

namespace Instruction

/-- The family F instruction on VX that the low byte of the word selects. -/
def ofSelector? (x : Register) : Nat → Option Instruction
  | 0x07 => some (readDelay x)
  | 0x0A => some (awaitKey x)
  | 0x15 => some (setDelay x)
  | 0x18 => some (setSound x)
  | 0x1E => some (advanceIndex x)
  | 0x29 => some (pointAtGlyph x)
  | 0x33 => some (storeDigits x)
  | 0x55 => some (storeRegisters x)
  | 0x65 => some (loadRegisters x)
  | _ => none

/-- The instruction a word stands for. -/
def decode (word : UInt16) : Option Instruction :=
  let nnn := word % 0x1000
  let nn := word.toUInt8
  let n := lastDigit word.toNat
  let x : Register := lastDigit (word.toNat / 0x100)
  let y : Register := lastDigit (word.toNat / 0x10)
  match word.toNat / 0x1000 with
  | 0x0 => some (if word = 0x00E0 then clear else if word = 0x00EE then ret else routine nnn)
  | 0x1 => some (jump nnn)
  | 0x2 => some (call nnn)
  | 0x3 => some (skipIf (.equalsByte x nn))
  | 0x4 => some (skipIf (.differsByte x nn))
  | 0x5 => if n.val = 0 then some (skipIf (.equalsRegister x y)) else none
  | 0x6 => some (set x nn)
  | 0x7 => some (increase x nn)
  | 0x8 => (Operation.ofDigit? n).map (combine · x y)
  | 0x9 => if n.val = 0 then some (skipIf (.differsRegister x y)) else none
  | 0xA => some (setIndex nnn)
  | 0xB => some (jumpPast nnn)
  | 0xC => some (random x nn)
  | 0xD => some (draw x y n)
  | 0xE =>
    if nn = 0x9E then some (skipIf (.keyHeld x))
    else if nn = 0xA1 then some (skipIf (.keyReleased x))
    else none
  | _ => ofSelector? x nn.toNat

end Instruction

end Chip8
