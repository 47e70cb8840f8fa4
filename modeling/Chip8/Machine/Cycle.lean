import Chip8.Instruction
import Chip8.Machine.State
import Chip8.Numeral

/-!
# One instruction

`Machine.cycle` fetches the word at the program counter, decodes and executes it.  A fault leaves
everything but the diagnostic `opcode` as it was, so the counter still names the culprit.

A machine read from a file can be damaged: short memory, a stack too deep, a screen without pixels.
Where an instruction runs into the damage there is no outcome, hence `none`.
-/

namespace Chip8

/-- What an instruction did. -/
inductive Progress where
  | executed
  /-- FX0A found no key held and comes up again. -/
  | awaitingKey
  deriving DecidableEq, Repr

/-- Why an instruction was not executed. -/
inductive Fault where
  | unknownOpcode (opcode address : UInt16)
  | stackOverflow (address : UInt16)
  | stackUnderflow (address : UInt16)
  deriving DecidableEq, Repr

/-- A fault as told to the user. -/
def Fault.message : Fault → String
  | unknownOpcode opcode address =>
    s!"unknown opcode 0x{Numeral.hex 4 opcode.toNat} at 0x{Numeral.hex 3 address.toNat}"
  | stackOverflow address => s!"call at 0x{Numeral.hex 3 address.toNat} with a full stack"
  | stackUnderflow address => s!"return at 0x{Numeral.hex 3 address.toNat} with an empty stack"

/-! ## Arithmetic -/

/-- One for true, zero for false. -/
def bit (b : Bool) : UInt8 := if b then 1 else 0

/-- The value and the flag of a two-register operation on VX and VY; four of them set no flag. -/
def Operation.apply (x y : UInt8) : Operation → UInt8 × Option Bool
  | copy => (y, none)
  | or => (x ||| y, none)
  | and => (x &&& y, none)
  | xor => (x ^^^ y, none)
  | add => (x + y, some (decide (255 < x.toNat + y.toNat)))
  | subtract => (x - y, some (decide (y < x)))
  | shiftRight => (x >>> 1, some (x % 2 == 1))
  | subtractFrom => (y - x, some (decide (x < y)))
  | shiftLeft => (x <<< 1, some (decide (128 ≤ x)))

namespace Machine

/-! ## Parts of an instruction -/

def setRegister (m : Machine) (x : Register) (value : UInt8) : Machine :=
  { m with registers := m.registers.put x value }

/-- On to the next instruction, from the top of memory back to its start. -/
def advance (m : Machine) : Machine := { m with counter := (m.counter + 2) % 0x1000 }

def jumpTo (m : Machine) (target : UInt16) : Machine := { m with counter := target }

/-- Whether a skip is taken. -/
def holds (m : Machine) : Condition → Bool
  | .equalsByte x value => m.registers.get x == value
  | .differsByte x value => m.registers.get x != value
  | .equalsRegister x y => m.registers.get x == m.registers.get y
  | .differsRegister x y => m.registers.get x != m.registers.get y
  | .keyHeld x => m.keypad.get (lastDigit (m.registers.get x).toNat)
  | .keyReleased x => !m.keypad.get (lastDigit (m.registers.get x).toNat)

/-- The result goes to VX first, so that VF holds the flag also where VX is VF. -/
def combine (m : Machine) (operation : Operation) (x y : Register) : Machine :=
  match operation.apply (m.registers.get x) (m.registers.get y) with
  | (value, none) => m.setRegister x value
  | (value, some flag) => (m.setRegister x value).setRegister .flag (bit flag)

/-- Hundreds, tens and units. -/
def digits (value : UInt8) : List UInt8 := [value / 100, value / 10 % 10, value % 10]

/-- The first registers replaced by the bytes of a list. -/
def fillRegisters (m : Machine) (values : List UInt8) : Machine :=
  { m with registers := Vector.ofFn fun x => values[x.val]?.getD (m.registers.get x) }

/-- Pops a return address and jumps there. -/
def return? (m : Machine) : Option Machine :=
  (m.stack[(m.depth - 1).toNat]?).map fun target =>
    { m with depth := m.depth - 1, counter := target }

/-- Pushes the address of the next instruction and jumps. -/
def call (m : Machine) (target : UInt16) (room : m.depth.toNat < 16) : Machine :=
  { m with
    stack := m.stack.set m.depth.toNat m.advance.counter room
    depth := m.depth + 1
    counter := target }

/-- Draws the sprite at the index register and leaves the collision in VF. -/
def draw? (m : Machine) (x y : Register) (rows : Fin 16) : Option Machine := do
  let sprite ← m.memory.readMany? m.index rows
  let (collision, screen) ← m.screen.draw (m.registers.get x) (m.registers.get y) sprite
  return { m with screen, stale := true }.setRegister .flag (bit collision)

/-! ## Cycle -/

/-- Executes an instruction that the counter still points at. -/
def execute (m : Machine) : Instruction → Option (Except Fault Progress × Machine)
  | .routine target => done (m.jumpTo target)
  | .clear => done { m with screen := m.screen.clear, stale := true }.advance
  | .ret =>
    if m.depth = 0 then some (.error (.stackUnderflow m.counter), m)
    else m.return?.bind done
  | .jump target => done (m.jumpTo target)
  | .call target =>
    if room : m.depth.toNat < 16 then done (m.call target room)
    else some (.error (.stackOverflow m.counter), m)
  | .skipIf condition => done (if m.holds condition then m.advance.advance else m.advance)
  | .set x value => done (m.setRegister x value).advance
  | .increase x value => done (m.setRegister x (m.registers.get x + value)).advance
  | .combine operation x y => done (m.combine operation x y).advance
  | .setIndex address => done { m with index := address }.advance
  | .jumpPast base => done (m.jumpTo ((base + (m.registers.get Register.first).toUInt16) % 0x1000))
  | .random x mask =>
    let (byte, random) := m.random.byte
    done ({ m with random }.setRegister x (byte &&& mask)).advance
  | .draw x y rows => (m.draw? x y rows).bind (done ·.advance)
  | .readDelay x => done (m.setRegister x m.timers.delay).advance
  | .awaitKey x =>
    match m.keypad.lowest? with
    | some key => done (m.setRegister x (UInt8.ofNat key)).advance
    | none => some (.ok .awaitingKey, m)
  | .setDelay x => done { m with timers := { m.timers with delay := m.registers.get x } }.advance
  | .setSound x => done { m with timers := { m.timers with sound := m.registers.get x } }.advance
  | .advanceIndex x => done { m with index := m.index + (m.registers.get x).toUInt16 }.advance
  | .pointAtGlyph x =>
    let glyph := (m.registers.get x).toNat % 16
    done { m with index := UInt16.ofNat (Memory.fontStart + Memory.glyphHeight * glyph) }.advance
  | .storeDigits x => do
    let memory ← m.memory.writeMany? m.index (digits (m.registers.get x))
    done { m with memory }.advance
  | .storeRegisters x => do
    let memory ← m.memory.writeMany? m.index (m.registers.toList.take (x + 1))
    done { m with memory }.advance
  | .loadRegisters x => do
    let values ← m.memory.readMany? m.index (x + 1)
    done (m.fillRegisters values).advance
where
  done (m : Machine) : Option (Except Fault Progress × Machine) := some (.ok .executed, m)

/-- One instruction: its outcome and the machine after it. -/
def cycle (m : Machine) : Option (Except Fault Progress × Machine) := do
  let opcode ← m.memory.word? m.counter
  let fetched := { m with opcode }
  match Instruction.decode opcode with
  | none => some (.error (.unknownOpcode opcode m.counter), fetched)
  | some instruction => fetched.execute instruction

end Machine

/-! ## Many cycles -/

/-- A stretch of cycles: how many executed an instruction, how many awaited a key, the fault that
ended the stretch if one did, and the machine after it. -/
structure Run where
  executed : Nat
  awaited : Nat
  fault : Option Fault
  machine : Machine
  deriving DecidableEq, Repr

namespace Run

/-- Cycles on top of a stretch until one faults, `count` of them at most. -/
def extend (run : Run) : Nat → Option Run
  | 0 => some run
  | count + 1 => do
    match ← run.machine.cycle with
    | (.ok .executed, machine) => extend { run with executed := run.executed + 1, machine } count
    | (.ok .awaitingKey, machine) => extend { run with awaited := run.awaited + 1, machine } count
    | (.error fault, machine) => some { run with fault := some fault, machine }

end Run

/-- Up to `count` cycles, ending early at a fault. -/
def Machine.run (m : Machine) (count : Nat) : Option Run := Run.extend ⟨0, 0, none, m⟩ count

end Chip8
