import Chip8.Proofs.Machine.Memory
import Chip8.Proofs.Machine.Words

/-!
# The footprint of an instruction

An instruction that is executed moves the counter, sets some registers, may push or pop a return
address, and changes one more part of the machine at most.  `Footprint` says which ones, and that
all else stays as it was:

    m.execute i = some (.ok progress, m') → m.Footprint i m'              (footprint_execute)

Which instruction that is can be read off the digits of the word (`code_of_decode`).
-/

namespace Chip8

/-! ## Footprints -/

/-- Parts of a machine beside counter, registers and stack. -/
inductive Part where
  | index
  | memory
  | delay
  | sound
  | screen
  | random
  deriving DecidableEq, Repr

/-- The part is the same on both machines. -/
def Part.Same (m m' : Machine) : Part → Prop
  | index => m'.index = m.index
  | memory => m'.memory = m.memory
  | delay => m'.timers.delay = m.timers.delay
  | sound => m'.timers.sound = m.timers.sound
  | screen => m'.screen = m.screen
  | random => m'.random = m.random

/-- Sums, differences and shifts leave a flag. -/
def Operation.SetsFlag : Operation → Prop
  | copy | or | and | xor => False
  | add | subtract | shiftRight | subtractFrom | shiftLeft => True

namespace Instruction

/-- Which registers an instruction may set. -/
def Sets (r : Register) : Instruction → Prop
  | set x _ | increase x _ | random x _ | readDelay x | awaitKey x => r = x
  | combine operation x _ => r = x ∨ operation.SetsFlag ∧ r = .flag
  | draw .. => r = .flag
  | loadRegisters x => r ≤ x
  | _ => False

/-- The part that an instruction changes beside counter, registers and stack. -/
def part? : Instruction → Option Part
  | setIndex _ | advanceIndex _ | pointAtGlyph _ => some .index
  | storeDigits _ | storeRegisters _ => some .memory
  | setDelay _ => some .delay
  | setSound _ => some .sound
  | clear | draw .. => some .screen
  | random .. => some .random
  | routine _ | ret | jump _ | call _ | skipIf _ | set .. | increase .. | combine .. | jumpPast _
  | readDelay _ | awaitKey _ | loadRegisters _ => none

/-- Return addresses put on the stack. -/
def pushes : Instruction → Nat
  | call _ => 1
  | _ => 0

/-- Return addresses taken off the stack. -/
def pops : Instruction → Nat
  | ret => 1
  | _ => 0

end Instruction

namespace Machine

/-- Where the counter is after an instruction that does not fault. -/
def goesTo? (m : Machine) : Instruction → Option Nat
  | .routine target | .jump target | .call target => some target.toNat
  | .jumpPast base => some ((base.toNat + (m.registers.get Register.first).toNat) % 0x1000)
  | .ret => m.stack[m.depth.toNat - 1]?.map (·.toNat)
  | .skipIf condition => some ((m.counter.toNat + if m.holds condition then 4 else 2) % 0x1000)
  | .awaitKey _ =>
    some (if m.keypad.lowest? = none then m.counter.toNat else (m.counter.toNat + 2) % 0x1000)
  | .clear | .set .. | .increase .. | .combine .. | .setIndex _ | .random .. | .draw .. | .readDelay _
  | .setDelay _ | .setSound _ | .advanceIndex _ | .pointAtGlyph _ | .storeDigits _
  | .storeRegisters _ | .loadRegisters _ => some ((m.counter.toNat + 2) % 0x1000)

/-- What an instruction that does not fault may change. -/
structure Footprint (m : Machine) (i : Instruction) (m' : Machine) : Prop where
  counter : m.goesTo? i = some m'.counter.toNat
  registers : ∀ r, m'.registers.get r ≠ m.registers.get r → i.Sets r
  depth : m'.depth.toNat + i.pops = m.depth.toNat + i.pushes
  stack : ∀ place, m'.stack.get place ≠ m.stack.get place →
    i.pushes = 1 ∧ place.val = m.depth.toNat
  parts : ∀ part, i.part? ≠ some part → part.Same m m'
  /-- What changes the screen makes it stale, and nothing makes it fresh. -/
  stale : m'.stale = true ↔ m.stale = true ∨ i.part? = some .screen
  /-- One number is drawn, and the stream stays the same. -/
  draws : i.part? = some .random →
    m'.random = { m.random with position := m.random.position + 1 }
  keypad : m'.keypad = m.keypad
  mode : m'.mode = m.mode
  opcode : m'.opcode = m.opcode

/-! ### Moves of the counter -/

theorem toNat_counter_advance (m : Machine) :
    m.advance.counter.toNat = (m.counter.toNat + 2) % 0x1000 := by
  show ((m.counter + 2) % 0x1000).toNat = _
  rw [UInt16.toNat_mod, UInt16.toNat_add]
  show (m.counter.toNat + 2) % 65536 % 4096 = (m.counter.toNat + 2) % 4096
  omega

theorem toNat_counter_skip (m : Machine) :
    m.advance.advance.counter.toNat = (m.counter.toNat + 4) % 0x1000 := by
  rw [toNat_counter_advance, toNat_counter_advance]
  omega

/-- Only the counter has moved. -/
theorem footprint_jumpTo {m : Machine} {i : Instruction} (target : UInt16)
    (counter : m.goesTo? i = some target.toNat) (level : i.pops = i.pushes)
    (quiet : i.part? = none) : m.Footprint i (m.jumpTo target) where
  counter := counter
  registers r changed := absurd rfl changed
  depth := congrArg (m.depth.toNat + ·) level
  stack place changed := absurd rfl changed
  parts part _ := by cases part <;> rfl
  stale := by simp [jumpTo, quiet]
  draws drawn := by simp [quiet] at drawn
  keypad := rfl
  mode := rfl
  opcode := rfl

/-- Registers and at most one part have changed before the counter goes on. -/
theorem footprint_advance {m : Machine} {i : Instruction} {registers : Cells UInt8 16}
    {index : UInt16} {memory : Memory} {timers : Timers} {screen : Screen} {stale : Bool}
    {random : Random} (counter : m.goesTo? i = some ((m.counter.toNat + 2) % 0x1000))
    (level : i.pops = i.pushes) (sets : ∀ r, registers.get r ≠ m.registers.get r → i.Sets r)
    (parts : ∀ part, i.part? ≠ some part →
      part.Same m { m with registers, index, memory, timers, screen, stale, random })
    (marked : stale = true ↔ m.stale = true ∨ i.part? = some .screen)
    (draws : i.part? = some .random →
      random = { m.random with position := m.random.position + 1 }) :
    m.Footprint i
      ({ m with registers, index, memory, timers, screen, stale, random } : Machine).advance where
  counter := by
    rw [counter, toNat_counter_advance]
  registers := sets
  depth := congrArg (m.depth.toNat + ·) level
  stack place changed := absurd rfl changed
  parts part other := by
    have same := parts part other
    cases part <;> exact same
  stale := marked
  draws := draws
  keypad := rfl
  mode := rfl
  opcode := rfl

/-- Only registers have changed before the counter goes on. -/
theorem footprint_registers {m : Machine} {i : Instruction} {registers : Cells UInt8 16}
    (counter : m.goesTo? i = some ((m.counter.toNat + 2) % 0x1000)) (level : i.pops = i.pushes)
    (quiet : i.part? = none) (sets : ∀ r, registers.get r ≠ m.registers.get r → i.Sets r) :
    m.Footprint i ({ m with registers } : Machine).advance :=
  footprint_advance counter level sets (fun part _ => by cases part <;> rfl)
    (by simp [quiet]) (by simp [quiet])

/-! ### Registers -/

theorem eq_of_put_changed {registers : Cells UInt8 16} {x r : Register} {value : UInt8}
    (changed : (registers.put x value).get r ≠ registers.get r) : r = x := by
  rw [Cells.get_put] at changed
  split at changed
  · next same => exact same.symm
  · exact absurd rfl changed

theorem sets_combine {m : Machine} {operation : Operation} {x y r : Register}
    (changed : (m.combine operation x y).registers.get r ≠ m.registers.get r) :
    (Instruction.combine operation x y).Sets r := by
  have flagged {value : UInt8} {flag : Bool}
      (h : operation.apply (m.registers.get x) (m.registers.get y) = (value, some flag)) :
      operation.SetsFlag := by
    cases operation <;> first | trivial | cases h
  unfold combine at changed
  split at changed
  · exact .inl (eq_of_put_changed changed)
  · next value flag h =>
    by_cases same : r = x
    · exact .inl same
    · refine .inr ⟨flagged h, ?_⟩
      have kept : (m.setRegister x value).registers.get r = m.registers.get r :=
        Classical.byContradiction fun other => same (eq_of_put_changed other)
      rw [← kept] at changed
      exact eq_of_put_changed changed

theorem le_of_fillRegisters_changed {m : Machine} {values : List UInt8} {x r : Register}
    (count : values.length = x.val + 1)
    (changed : (m.fillRegisters values).registers.get r ≠ m.registers.get r) : r ≤ x := by
  apply Classical.byContradiction
  intro above
  have beyond : values.length ≤ r.val := by
    have : x.val < r.val := Nat.lt_of_not_le above
    omega
  apply changed
  show Vector.get (Vector.ofFn _) r = m.registers.get r
  rw [Cells.get_ofFn, List.getElem?_eq_none beyond, Option.getD_none]

/-! ### Stack -/

theorem eq_of_pushed {m : Machine} {target : UInt16} (room : m.depth.toNat < 16) {place : Fin 16}
    (changed : (m.call target room).stack.get place ≠ m.stack.get place) :
    place.val = m.depth.toNat := by
  apply Classical.byContradiction
  intro other
  apply changed
  show (m.stack.set m.depth.toNat _ room)[place.val] = m.stack[place.val]
  rw [Vector.getElem_set_ne _ _ (Ne.symm other)]

theorem succ_toNat_depth_sub_one {m : Machine} (deep : m.depth ≠ 0) :
    (m.depth - 1).toNat + 1 = m.depth.toNat := by
  have pos : m.depth.toNat ≠ 0 := fun h => deep (UInt8.toNat_inj.1 h)
  rw [toNat_depth_sub_one deep]
  omega

/-! ### One instruction -/

/-- One case for each kind of change, in the order of the counter, the stack, the registers and the
other parts. -/
theorem footprint_execute {m m' : Machine} {i : Instruction} {progress : Progress}
    (h : m.execute i = some (.ok progress, m')) : m.Footprint i m' := by
  cases i
  case routine target | jump target =>
    obtain ⟨-, rfl⟩ := done_eq_some_iff.1 h
    exact footprint_jumpTo target rfl rfl rfl
  case jumpPast base =>
    obtain ⟨-, rfl⟩ := done_eq_some_iff.1 h
    refine footprint_jumpTo _ (congrArg some ?_) rfl rfl
    rw [UInt16.toNat_mod, UInt16.toNat_add, UInt8.toNat_toUInt16]
    show (base.toNat + (m.registers.get Register.first).toNat) % 4096 =
      (base.toNat + (m.registers.get Register.first).toNat) % 65536 % 4096
    omega
  case skipIf condition =>
    obtain ⟨-, rfl⟩ := done_eq_some_iff.1 h
    split
    · next taken =>
      refine footprint_jumpTo m.advance.advance.counter ?_ rfl rfl
      rw [goesTo?, if_pos taken, toNat_counter_skip]
    · next passed =>
      refine footprint_jumpTo m.advance.counter ?_ rfl rfl
      rw [goesTo?, if_neg passed, toNat_counter_advance]
  case awaitKey x =>
    simp only [execute] at h
    split at h
    · next key hkey =>
      obtain ⟨-, rfl⟩ := done_eq_some_iff.1 h
      refine footprint_registers ?_ rfl rfl fun r changed => eq_of_put_changed changed
      simp [goesTo?, hkey]
    · next hnone =>
      cases h
      exact footprint_jumpTo m.counter (by simp [goesTo?, hnone]) rfl rfl
  case call target =>
    simp only [execute] at h
    split at h
    · next room =>
      obtain ⟨-, rfl⟩ := done_eq_some_iff.1 h
      exact {
        counter := rfl
        registers := fun r changed => absurd rfl changed
        depth := by
          show (m.call target room).depth.toNat = m.depth.toNat + 1
          exact depth_call room
        stack := fun place changed => ⟨rfl, eq_of_pushed room changed⟩
        parts := fun part _ => by cases part <;> rfl
        stale := by simp [call, Instruction.part?]
        draws := fun drawn => by cases drawn
        keypad := rfl
        mode := rfl
        opcode := rfl }
    · cases h
  case ret =>
    simp only [execute] at h
    split at h
    · cases h
    · next deep =>
      obtain ⟨_, hret, h⟩ := Option.bind_eq_some_iff.1 h
      obtain ⟨target, htarget, rfl⟩ := return?_eq_some_iff.1 hret
      obtain ⟨-, rfl⟩ := done_eq_some_iff.1 h
      have shallower : (m.depth - 1).toNat + 1 = m.depth.toNat := succ_toNat_depth_sub_one deep
      exact {
        counter := by
          rw [goesTo?, ← shallower, Nat.add_sub_cancel, htarget]
          rfl
        registers := fun r changed => absurd rfl changed
        depth := shallower
        stack := fun place changed => absurd rfl changed
        parts := fun part _ => by cases part <;> rfl
        stale := by simp [Instruction.part?]
        draws := fun drawn => by cases drawn
        keypad := rfl
        mode := rfl
        opcode := rfl }
  case set x value | increase x value | readDelay x =>
    obtain ⟨-, rfl⟩ := done_eq_some_iff.1 h
    exact footprint_registers rfl rfl rfl fun r changed => eq_of_put_changed changed
  case combine operation x y =>
    obtain ⟨-, rfl⟩ := done_eq_some_iff.1 h
    rw [combine_eq]
    exact footprint_registers rfl rfl rfl fun r changed => sets_combine changed
  case loadRegisters x =>
    simp only [execute, Option.bind_eq_bind, Option.bind_eq_some_iff] at h
    obtain ⟨values, hread, h⟩ := h
    obtain ⟨-, rfl⟩ := done_eq_some_iff.1 h
    rw [fillRegisters_eq]
    have count := Memory.length_readMany? hread
    exact footprint_registers rfl rfl rfl fun r changed => le_of_fillRegisters_changed count changed
  case random x mask =>
    rw [execute_random] at h
    obtain ⟨-, rfl⟩ := done_eq_some_iff.1 h
    exact footprint_advance rfl rfl (fun r changed => eq_of_put_changed changed)
      (fun part other => by cases part <;> first | rfl | exact absurd rfl other)
      (by simp [Instruction.part?]) fun _ => rfl
  case draw x y rows =>
    simp only [execute, Option.bind_eq_some_iff] at h
    obtain ⟨_, hdraw, h⟩ := h
    obtain ⟨sprite, collision, screen, -, -, rfl⟩ := draw?_eq_some_iff.1 hdraw
    obtain ⟨-, rfl⟩ := done_eq_some_iff.1 h
    exact footprint_advance rfl rfl (fun r changed => eq_of_put_changed changed)
      (fun part other => by cases part <;> first | rfl | exact absurd rfl other)
      (by simp [Instruction.part?]) fun drawn => by cases drawn
  case storeDigits | storeRegisters =>
    simp only [execute, Option.bind_eq_bind, Option.bind_eq_some_iff] at h
    obtain ⟨memory, -, h⟩ := h
    obtain ⟨-, rfl⟩ := done_eq_some_iff.1 h
    exact footprint_advance rfl rfl (fun r changed => absurd rfl changed)
      (fun part other => by cases part <;> first | rfl | exact absurd rfl other)
      (by simp [Instruction.part?]) fun drawn => by cases drawn
  -- the screen, the index or a timer
  all_goals
    obtain ⟨-, rfl⟩ := done_eq_some_iff.1 h
    exact footprint_advance rfl rfl (fun r changed => absurd rfl changed)
      (fun part other => by cases part <;> first | rfl | exact absurd rfl other)
      (by simp [Instruction.part?]) fun drawn => by cases drawn

/-! ## Main statement -/

/-- On a machine with all its memory and pixels and a stack within its cells, a cycle has an
outcome, and where that is no fault, the word that was fetched is on record, it spells an
instruction, and the cycle kept within the footprint of that instruction. -/
theorem exists_footprint (m : Machine) (full : m.memory.bytes.size = Memory.size)
    (hdepth : m.depth.toNat ≤ 16) (whole : m.screen.Whole) :
    ∃ outcome m', m.cycle = some (outcome, m') ∧ ∀ progress, outcome = .ok progress →
      ∃ word i, m.memory.word? m.counter = some word ∧ Instruction.decode word = some i ∧
        i.code = word.toNat ∧ ({ m with opcode := word } : Machine).Footprint i m' := by
  have sturdy : m.Sturdy := ⟨Nat.le_of_eq full.symm, hdepth, whole.drawable⟩
  obtain ⟨outcome, m', hcycle, -⟩ := sturdy.exists_cycle
  refine ⟨outcome, m', hcycle, ?_⟩
  rintro progress rfl
  obtain ⟨word, hword, h⟩ := cycle_eq_some_iff.1 hcycle
  split at h
  · cases h.1
  · next i hi =>
    exact ⟨word, i, hword, hi, Instruction.code_of_decode hi, footprint_execute h⟩

/-- The word C30F draws one number into V3 and does nothing else. -/
theorem exists_footprint_random :
    let program : List UInt8 := [0xC3, 0x0F]
    ∃ memory, Memory.blank.load program = some (.ok memory) ∧
      memory.bytes.size = Memory.size ∧
      let m : Machine := { fresh ⟨false, false⟩ (.ofSeed 3) with memory }
      m.depth.toNat ≤ 16 ∧ m.screen.Whole ∧
      ∃ m', m.cycle = some (.ok .executed, m') ∧ m'.counter = 0x202 ∧
        (∀ r, r ≠ lastDigit 3 → m'.registers.get r = m.registers.get r) ∧
        m'.random.position = 1 ∧ m'.index = m.index ∧ m'.memory = memory ∧ m'.opcode = 0xC30F := by
  intro program
  have room : Memory.size ≤ Memory.blank.bytes.size := Nat.le_of_eq Memory.size_blank.symm
  obtain ⟨memory, hload⟩ := Memory.load_of_fits room (by decide : program.length ≤ _)
  have full : memory.bytes.size = Memory.size := (Memory.size_load hload).trans Memory.size_blank
  have fit := wellFormed_fresh ⟨false, false⟩ (.ofSeed 3)
  refine ⟨memory, hload, full, ?_⟩
  intro m
  have hdepth : m.depth.toNat ≤ 16 := fit.depth
  have whole : m.screen.Whole := fit.whole
  have fetched : m.memory.word? m.counter = some 0xC30F := Memory.word?_load hload
  obtain ⟨outcome, m', hcycle, within⟩ := exists_footprint m full hdepth whole
  obtain rfl : outcome = .ok .executed := by
    obtain ⟨word, hword, h⟩ := cycle_eq_some_iff.1 hcycle
    obtain rfl : 0xC30F = word := Option.some.inj (fetched.symm.trans hword)
    exact (done_eq_some_iff.1 ((execute_random _ (lastDigit 3) 0x0F).symm.trans h)).1
  obtain ⟨word, i, hword, hi, -, foot⟩ := within .executed rfl
  obtain rfl : 0xC30F = word := Option.some.inj (fetched.symm.trans hword)
  obtain rfl : Instruction.random (lastDigit 3) 0x0F = i := Option.some.inj hi
  refine ⟨hdepth, whole, m', hcycle, ?_, fun r other => ?_, ?_, foot.parts .index (by decide),
    foot.parts .memory (by decide), foot.opcode⟩
  · exact UInt16.toNat_inj.1 (Option.some.inj foot.counter).symm
  · exact Classical.byContradiction fun changed => other (foot.registers r changed)
  · rw [foot.draws rfl]
    rfl

end Machine

end Chip8
