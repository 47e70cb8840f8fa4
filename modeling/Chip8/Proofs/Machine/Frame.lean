import Chip8.Proofs.Machine.Footprint
import Chip8.Proofs.Machine.Halt

/-!
# What an instruction leaves alone

A fault leaves all but the record of the word, and an instruction that is executed keeps within its
footprint.  So whatever comes of a cycle, only a call and a return have to do with the stack, and
only two instructions write to memory:

    m.next? = some i → m.cycle = some (outcome, m') → m.Frame i m'              (frame_cycle)
-/

namespace Chip8

namespace Machine

/-! ## Stack and memory -/

/-- The stack is left alone but by calls and returns, and memory but by the two stores. -/
structure Frame (m : Machine) (i : Instruction) (m' : Machine) : Prop where
  stack : (∀ target, i ≠ .call target) → i ≠ .ret → m'.stack = m.stack ∧ m'.depth = m.depth
  memory : (∀ x, i ≠ .storeDigits x) → (∀ x, i ≠ .storeRegisters x) → m'.memory = m.memory

theorem Footprint.frame {m m' : Machine} {i : Instruction} (h : m.Footprint i m') : m.Frame i m' where
  stack noCall noRet := by
    have level : i.pushes = 0 ∧ i.pops = 0 := by
      cases i
      case call target => exact absurd rfl (noCall target)
      case ret => exact absurd rfl noRet
      all_goals exact ⟨rfl, rfl⟩
    have depth := h.depth
    rw [level.1, level.2] at depth
    refine ⟨Cells.ext_get fun place => ?_, UInt8.toNat_inj.1 depth⟩
    apply Classical.byContradiction
    intro changed
    have pushed := (h.stack place changed).1
    omega
  memory noDigits noRegisters := by
    refine h.parts .memory fun stores => ?_
    cases i
    case storeDigits x => exact absurd rfl (noDigits x)
    case storeRegisters x => exact absurd rfl (noRegisters x)
    all_goals cases stores

theorem frame_execute {m m' : Machine} {i : Instruction} {outcome : Except Fault Progress}
    (h : m.execute i = some (outcome, m')) : m.Frame i m' := by
  cases outcome with
  | ok progress => exact (footprint_execute h).frame
  | error fault =>
    obtain ⟨-, rfl⟩ := execute_eq_error_iff.1 h
    exact ⟨fun _ _ => ⟨rfl, rfl⟩, fun _ _ => rfl⟩

/-! ## The next instruction -/

theorem next?_eq_some_iff {m : Machine} {i : Instruction} :
    m.next? = some i ↔
      ∃ opcode, m.memory.word? m.counter = some opcode ∧ Instruction.decode opcode = some i := by
  rw [next?, Option.bind_eq_some_iff]

/-- The instruction at a place of a program that was loaded. -/
theorem next?_of_load {m : Machine} {before : Memory} {program : List UInt8}
    (hload : before.load program = some (.ok m.memory)) (place : Nat)
    (hcounter : m.counter = UInt16.ofNat (Memory.programStart + place)) {high low : UInt8}
    (hhigh : program[place]? = some high) (hlow : program[place + 1]? = some low) {i : Instruction}
    (hdecode : Instruction.decode (high.toUInt16 * 0x100 + low.toUInt16) = some i) :
    m.next? = some i := by
  refine next?_eq_some_iff.2 ⟨_, ?_, hdecode⟩
  rw [hcounter]
  exact Memory.word?_load_at hload hhigh hlow

/-- A cycle executes the next instruction once the word is on record. -/
theorem cycle_of_next? {m : Machine} {i : Instruction} (hi : m.next? = some i) :
    ∃ opcode, m.cycle = { m with opcode }.execute i := by
  obtain ⟨opcode, hword, hdecode⟩ := next?_eq_some_iff.1 hi
  refine ⟨opcode, ?_⟩
  simp only [cycle, hword, hdecode, Option.bind_eq_bind, Option.bind_some]

/-- A cycle without an instruction faults. -/
theorem cycle_without_next? {m m' : Machine} {outcome : Except Fault Progress}
    (hnone : m.next? = none) (h : m.cycle = some (outcome, m')) :
    ∃ opcode, outcome = .error (.unknownOpcode opcode m.counter) ∧ m' = { m with opcode } := by
  obtain ⟨opcode, hword, h⟩ := cycle_eq_some_iff.1 h
  rw [next?, hword, Option.bind_some] at hnone
  rw [hnone] at h
  exact ⟨opcode, h⟩

theorem exists_next?_of_ok {m m' : Machine} {progress : Progress}
    (h : m.cycle = some (.ok progress, m')) : ∃ i, m.next? = some i := by
  cases hi : m.next? with
  | some i => exact ⟨i, rfl⟩
  | none =>
    obtain ⟨opcode, outcome, -⟩ := cycle_without_next? hi h
    cases outcome

/-- A fault leaves all but the record of the word. -/
theorem eq_of_cycle_error {m m' : Machine} {f : Fault} (h : m.cycle = some (.error f, m')) :
    ∃ opcode, m' = { m with opcode } := by
  obtain ⟨opcode, -, h⟩ := cycle_eq_some_iff.1 h
  split at h
  · exact ⟨opcode, h.2⟩
  · exact ⟨opcode, (execute_eq_error_iff.1 h).2⟩

theorem frame_cycle {m m' : Machine} {i : Instruction} {outcome : Except Fault Progress}
    (hi : m.next? = some i) (h : m.cycle = some (outcome, m')) : m.Frame i m' := by
  obtain ⟨opcode, hcycle⟩ := cycle_of_next? hi
  obtain ⟨stack, memory⟩ := frame_execute (hcycle.symm.trans h)
  exact ⟨stack, memory⟩

end Machine

end Chip8
