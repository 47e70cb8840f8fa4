import Chip8.Instruction
import Chip8.Numeral

/-!
# Mnemonics

Instructions in assembler notation: a name of up to four letters, a blank, the operands.  Numbers
are hexadecimal, addresses with three digits and bytes with two.
-/

namespace Chip8

/-- The letter V and the register's digit. -/
def Register.name (x : Register) : String := "V" ++ Numeral.hex 1 x

/-- The part of the mnemonic before the two registers. -/
def Operation.mnemonic : Operation → String
  | copy => "LD  "
  | or => "OR  "
  | and => "AND "
  | xor => "XOR "
  | add => "ADD "
  | subtract => "SUB "
  | shiftRight => "SHR "
  | subtractFrom => "SUBN"
  | shiftLeft => "SHL "

/-- A skip is named for the test that makes it skip. -/
def Condition.mnemonic : Condition → String
  | equalsByte x value => s!"SE   {x.name}, {Numeral.hex 2 value.toNat}"
  | differsByte x value => s!"SNE  {x.name}, {Numeral.hex 2 value.toNat}"
  | equalsRegister x y => s!"SE   {x.name}, {y.name}"
  | differsRegister x y => s!"SNE  {x.name}, {y.name}"
  | keyHeld x => s!"SKP  {x.name}"
  | keyReleased x => s!"SKNP {x.name}"

/-- The instruction in assembler notation. -/
def Instruction.mnemonic : Instruction → String
  | routine target => s!"SYS  {Numeral.hex 3 target.toNat}"
  | clear => "CLS"
  | ret => "RET"
  | jump target => s!"JP   {Numeral.hex 3 target.toNat}"
  | call target => s!"CALL {Numeral.hex 3 target.toNat}"
  | skipIf condition => condition.mnemonic
  | set x value => s!"LD   {x.name}, {Numeral.hex 2 value.toNat}"
  | increase x value => s!"ADD  {x.name}, {Numeral.hex 2 value.toNat}"
  | combine operation x y => s!"{operation.mnemonic} {x.name}, {y.name}"
  | setIndex address => s!"LD   I, {Numeral.hex 3 address.toNat}"
  | jumpPast base => s!"JP   V0, {Numeral.hex 3 base.toNat}"
  | random x mask => s!"RND  {x.name}, {Numeral.hex 2 mask.toNat}"
  | draw x y rows => s!"DRW  {x.name}, {y.name}, {Numeral.hex 1 rows}"
  | readDelay x => s!"LD   {x.name}, DT"
  | awaitKey x => s!"LD   {x.name}, K"
  | setDelay x => s!"LD   DT, {x.name}"
  | setSound x => s!"LD   ST, {x.name}"
  | advanceIndex x => s!"ADD  I, {x.name}"
  | pointAtGlyph x => s!"LD   F, {x.name}"
  | storeDigits x => s!"LD   B, {x.name}"
  | storeRegisters x => s!"LD   [I], {x.name}"
  | loadRegisters x => s!"LD   {x.name}, [I]"

end Chip8
