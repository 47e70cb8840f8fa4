import Chip8.Proofs.Machine.Memory
import Chip8.Proofs.Machine.Shape

/-!
# Parts that few instructions look at

Index, keypad and timers are looked at by a few instructions only, and mode, record and staleness by
none.  Where a machine has others of these, with an index that names the same byte, an instruction
that does not ask for keys or timers has the same outcome, and what it does to them is told by
`sidesAfter`:

    (m.beside s).execute i = (m.execute i).map (the same, beside m.sidesAfter s i)   (execute_beside)

That non-interference is proved here once, one case for each instruction.
-/

namespace Chip8

namespace Instruction

/-- FX07, FX15 and FX18. -/
def usesTimers : Instruction → Bool
  | readDelay _ | setDelay _ | setSound _ => true
  | _ => false

/-- EX9E, EXA1 and FX0A. -/
def usesKeys : Instruction → Bool
  | skipIf (.keyHeld _) | skipIf (.keyReleased _) | awaitKey _ => true
  | _ => false

/-- Instructions that change the screen. -/
def redraws : Instruction → Bool
  | clear | draw .. => true
  | _ => false

end Instruction

/-- Parts of a machine that few instructions look at. -/
structure Sides where
  index : UInt16
  keypad : Keypad
  timers : Timers
  mode : Mode
  stale : Bool
  opcode : UInt16
  deriving DecidableEq, Repr

namespace Machine

def sides (m : Machine) : Sides := ⟨m.index, m.keypad, m.timers, m.mode, m.stale, m.opcode⟩

/-- The machine with other parts of that kind. -/
def beside (m : Machine) (s : Sides) : Machine :=
  { m with
    index := s.index
    keypad := s.keypad
    timers := s.timers
    mode := s.mode
    stale := s.stale
    opcode := s.opcode }

theorem beside_sides (m : Machine) : m.beside m.sides = m := rfl

/-- Where an instruction moves an index to. -/
def indexAfter (m : Machine) (index : UInt16) : Instruction → UInt16
  | .setIndex address => address
  | .advanceIndex x => index + (m.registers.get x).toUInt16
  | .pointAtGlyph x =>
    UInt16.ofNat (Memory.fontStart + Memory.glyphHeight * ((m.registers.get x).toNat % 16))
  | _ => index

/-- What an instruction sets timers to. -/
def timersAfter (m : Machine) (timers : Timers) : Instruction → Timers
  | .setDelay x => { timers with delay := m.registers.get x }
  | .setSound x => { timers with sound := m.registers.get x }
  | _ => timers

def sidesAfter (m : Machine) (s : Sides) (i : Instruction) : Sides :=
  { s with
    index := m.indexAfter s.index i
    timers := m.timersAfter s.timers i
    stale := i.redraws || s.stale }

section
variable {m : Machine} {s : Sides}

theorem holds_beside {condition : Condition}
    (keys : (Instruction.skipIf condition).usesKeys = true → s.keypad = m.keypad) :
    (m.beside s).holds condition = m.holds condition := by
  cases condition
  case keyHeld x => simp only [holds, beside, keys rfl]
  case keyReleased x => simp only [holds, beside, keys rfl]
  all_goals rfl

theorem combine_beside (operation : Operation) (x y : Register) :
    (m.beside s).combine operation x y = (m.combine operation x y).beside s := by
  cases operation <;> rfl

theorem return?_beside : (m.beside s).return? = m.return?.map (·.beside s) := by
  rw [return?, return?, Option.map_map]
  rfl

theorem draw?_beside (place : Memory.SamePlace s.index m.index) (x y : Register) (rows : Fin 16) :
    (m.beside s).draw? x y rows = (m.draw? x y rows).map (·.beside { s with stale := true }) := by
  have sprite : m.memory.readMany? s.index rows = m.memory.readMany? m.index rows :=
    Memory.readMany?_congr place rows
  simp only [draw?, beside, sprite]
  rcases m.memory.readMany? m.index rows with _ | sprite
  · rfl
  · simp only [Option.bind_eq_bind, Option.bind_some]
    rcases m.screen.draw (m.registers.get x) (m.registers.get y) sprite with _ | ⟨hit, screen⟩ <;>
      rfl

/-- One case for each instruction that goes through the index or asks for keys or timers, or that
has an outcome of its own kind. -/
theorem execute_beside (place : Memory.SamePlace s.index m.index) (i : Instruction)
    (timers : i.usesTimers = true → s.timers = m.timers)
    (keys : i.usesKeys = true → s.keypad = m.keypad) :
    (m.beside s).execute i = (m.execute i).map (Prod.map id (·.beside (m.sidesAfter s i))) := by
  cases i
  case ret =>
    have same : (m.beside s).depth = m.depth := rfl
    by_cases empty : m.depth = 0
    · simp only [execute, same, if_pos empty]
      rfl
    · simp only [execute, same, if_neg empty, return?_beside]
      cases m.return? <;> rfl
  case call target =>
    have same : (m.beside s).depth = m.depth := rfl
    simp only [execute, same]
    split <;> rfl
  case skipIf condition =>
    simp only [execute, holds_beside keys]
    split <;> rfl
  case combine operation x y =>
    simp only [execute, combine_beside]
    rfl
  case draw x y rows =>
    simp only [execute, draw?_beside place]
    cases m.draw? x y rows <;> rfl
  case readDelay x =>
    have same : (m.beside s).timers = m.timers := timers rfl
    simp only [execute, same]
    rfl
  case awaitKey x =>
    have same : (m.beside s).keypad = m.keypad := keys rfl
    simp only [execute, same]
    split <;> rfl
  case storeDigits x =>
    simp only [execute, beside, Memory.writeMany?_congr place]
    cases m.memory.writeMany? m.index (digits (m.registers.get x)) <;> rfl
  case storeRegisters x =>
    simp only [execute, beside, Memory.writeMany?_congr place]
    cases m.memory.writeMany? m.index (m.registers.toList.take (x + 1)) <;> rfl
  case loadRegisters x =>
    simp only [execute, beside, Memory.readMany?_congr place]
    cases m.memory.readMany? m.index (x + 1) <;> rfl
  all_goals rfl

/-- What an instruction does to these parts, whatever its outcome. -/
theorem sides_execute {m' : Machine} {i : Instruction} {outcome : Except Fault Progress}
    (h : m.execute i = some (outcome, m')) : m'.sides = m.sidesAfter m.sides i := by
  have same := execute_beside (s := m.sides) (.refl m.index) i (fun _ => rfl) (fun _ => rfl)
  rw [beside_sides, h] at same
  exact congrArg (fun ended => (Prod.snd ended).sides) (Option.some.inj same)

/-- The same, told as a change of what the instruction leaves. -/
theorem execute_beside_eq (change : Machine → Machine) (place : Memory.SamePlace s.index m.index)
    {i : Instruction} (timers : i.usesTimers = true → s.timers = m.timers)
    (keys : i.usesKeys = true → s.keypad = m.keypad)
    (changes : ∀ m' : Machine,
      m'.beside (m.sidesAfter s i) = change (m'.beside (m.sidesAfter m.sides i))) :
    (m.beside s).execute i = (m.execute i).map (Prod.map id change) := by
  rw [execute_beside place i timers keys]
  cases h : m.execute i with
  | none => rfl
  | some ended =>
    obtain ⟨outcome, m'⟩ := ended
    have changed : m'.beside (m.sidesAfter s i) = change m' := by
      rw [changes, ← sides_execute h, beside_sides]
    show some (outcome, m'.beside (m.sidesAfter s i)) = some (outcome, change m')
    rw [changed]

end

end Machine

end Chip8
