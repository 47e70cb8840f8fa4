import Chip8.Proofs.Machine.Sturdy

/-!
# Halted machines

There are three ways to fault: a word outside the instruction set, a return from an empty stack, and
a call on a full one.  A fault leaves all but the record of the word as it was, so the machine stays
where it is: the next cycle finds the same word and the same stack, whatever is done to timers and
keys meanwhile.

    decode word = none ↔ Outside word                                     (decode_eq_none_iff)
    m.cycle = some (.error fault, m') ↔
      ∃ word, m.memory.word? m.counter = some word ∧ m.Refuses word fault ∧
        m' = { m with opcode := word }                                    (cycle_eq_error_iff)
    m.Halted fault → m.attempt attempts =
      some (List.replicate (attempts.count .cycle) (.error fault), m.attended attempts)
                                                                          (Halted.attempt_eq)
-/

namespace Chip8

/-! ## Words outside the instruction set -/

namespace Instruction

/-- Families 5 and 9 want a zero at the end, and families 8, E and F have gaps. -/
def Outside (word : UInt16) : Prop :=
  let family := word.toNat / 0x1000
  let nn := word.toNat % 0x100
  let n := word.toNat % 0x10
  (family = 5 ∨ family = 9) ∧ n ≠ 0 ∨
    family = 8 ∧ (0x8 ≤ n ∧ n ≤ 0xD ∨ n = 0xF) ∨
    family = 0xE ∧ nn ≠ 0x9E ∧ nn ≠ 0xA1 ∨
    family = 0xF ∧ nn ∉ [0x07, 0x0A, 0x15, 0x18, 0x1E, 0x29, 0x33, 0x55, 0x65]

theorem ofDigit?_eq_none_iff : ∀ n, n < 16 →
    (Operation.ofDigit? n = none ↔ 0x8 ≤ n ∧ n ≤ 0xD ∨ n = 0xF) := by
  decide

theorem ofSelector?_eq_none_iff (x : Register) (nn : Nat) :
    ofSelector? x nn = none ↔ nn ∉ [0x07, 0x0A, 0x15, 0x18, 0x1E, 0x29, 0x33, 0x55, 0x65] := by
  unfold ofSelector?
  split <;> simp_all

theorem decode_eq_none_iff (word : UInt16) : decode word = none ↔ Outside word := by
  have small : word.toNat / 0x1000 < 16 := Nat.div_lt_of_lt_mul word.toNat_lt
  unfold decode Outside
  simp only
  split
  case h_6 family | h_10 family =>
    split
    · next zero =>
      simp only [lastDigit] at zero
      simp [family, zero]
    · next other =>
      simp only [lastDigit] at other
      simp [family, other]
  case h_9 family =>
    rw [Option.map_eq_none_iff, ofDigit?_eq_none_iff _ (lastDigit word.toNat).isLt]
    simp [family, lastDigit]
  case h_15 family =>
    have low (value : UInt8) : word.toUInt8 = value ↔ word.toNat % 0x100 = value.toNat := by
      rw [← UInt8.toNat_inj, UInt16.toNat_toUInt8]
    simp only [low, UInt8.reduceToNat]
    split
    · next held => simp [family, held]
    · next other =>
      split
      · next released => simp [family, released]
      · next neither => simp [family, other, neither]
  case h_16 =>
    have last : word.toNat / 0x1000 = 0xF := by grind
    rw [ofSelector?_eq_none_iff, UInt16.toNat_toUInt8]
    simp [last]
  -- every word of the other families is an instruction
  all_goals
    next family => simp [family]

/-- Only two words of the instruction set can fault, and they are told by family and by text. -/
theorem eq_of_decode {word : UInt16} {i : Instruction} (h : decode word = some i) :
    (i = .ret ↔ word = 0x00EE) ∧
      ∀ target, i = .call target ↔ word.toNat / 0x1000 = 2 ∧ target = word % 0x1000 := by
  have other (family : word.toNat / 0x1000 ≠ 0) : word ≠ 0x00EE := by
    rintro rfl
    exact family rfl
  unfold decode at h
  simp only at h
  split at h
  case h_1 family =>
    cases h
    split
    · next clear => simp [clear]
    · next =>
      split
      · next ret => simp [ret]
      · next ret => simp [family, ret]
  case h_3 family =>
    cases h
    simp [family, other, eq_comm]
  case h_6 family | h_10 family =>
    split at h <;> cases h
    simp [family, other]
  case h_9 family =>
    obtain ⟨_, -, rfl⟩ := Option.map_eq_some_iff.1 h
    simp [family, other]
  case h_15 family =>
    split at h
    · cases h
      simp [family, other]
    · split at h <;> cases h
      simp [family, other]
  case h_16 routine _ call _ _ _ _ _ _ _ _ _ _ _ _ =>
    have call : word.toNat / 0x1000 ≠ 2 := call
    unfold ofSelector? at h
    split at h <;> cases h <;> simp [call, other routine]
  all_goals
    next family =>
    cases h
    simp [family, other]

end Instruction

namespace Machine

/-! ## Faults -/

/-- Why the word ahead is not executed. -/
def Refuses (m : Machine) (word : UInt16) : Fault → Prop
  | .unknownOpcode opcode address => opcode = word ∧ address = m.counter ∧ Instruction.Outside word
  | .stackUnderflow address => address = m.counter ∧ word = 0x00EE ∧ m.depth = 0
  | .stackOverflow address => address = m.counter ∧ word.toNat / 0x1000 = 2 ∧ m.depth = 16

theorem refuses_congr {m m' : Machine} (counter : m'.counter = m.counter)
    (depth : m'.depth = m.depth) {word : UInt16} {fault : Fault} :
    m'.Refuses word fault ↔ m.Refuses word fault := by
  cases fault <;> simp only [Refuses, counter, depth]

/-- The fault of an instruction, where it has one. -/
def faultOf? (m : Machine) : Instruction → Option Fault
  | .ret => if m.depth = 0 then some (.stackUnderflow m.counter) else none
  | .call _ => if m.depth.toNat < 16 then none else some (.stackOverflow m.counter)
  | _ => none

/-- An instruction that faults has not begun. -/
theorem execute_eq_error_iff {m m' : Machine} {i : Instruction} {fault : Fault} :
    m.execute i = some (.error fault, m') ↔ m.faultOf? i = some fault ∧ m' = m := by
  cases i
  case ret =>
    simp only [execute, faultOf?]
    split
    · simp [eq_comm]
    · simp [Option.bind_eq_some_iff, execute.done]
  case call target =>
    simp only [execute, faultOf?]
    split
    · simp [execute.done]
    · simp [eq_comm]
  case awaitKey x =>
    simp only [execute, faultOf?]
    split <;> simp [execute.done]
  case draw | storeDigits | storeRegisters | loadRegisters =>
    simp [execute, execute.done, faultOf?, Option.bind_eq_some_iff]
  all_goals simp [execute, execute.done, faultOf?]

theorem faultOf?_eq_some_iff {m : Machine} {word : UInt16} {i : Instruction} {fault : Fault}
    (hdepth : m.depth.toNat ≤ 16) (hi : Instruction.decode word = some i) :
    m.faultOf? i = some fault ↔ m.Refuses word fault := by
  obtain ⟨hret, hcall⟩ := Instruction.eq_of_decode hi
  have inside : ¬Instruction.Outside word := by
    rw [← Instruction.decode_eq_none_iff, hi]
    simp
  constructor
  · intro h
    cases i <;> simp only [faultOf?] at h
    case ret =>
      split at h <;> cases h
      exact ⟨rfl, hret.1 rfl, by assumption⟩
    case call target =>
      split at h <;> cases h
      refine ⟨rfl, ((hcall target).1 rfl).1, UInt8.toNat_inj.1 ?_⟩
      show m.depth.toNat = 16
      omega
    all_goals cases h
  · intro h
    cases fault with
    | unknownOpcode opcode address => exact absurd h.2.2 inside
    | stackUnderflow address =>
      obtain ⟨rfl, hword, empty⟩ := h
      obtain rfl := hret.2 hword
      simp [faultOf?, empty]
    | stackOverflow address =>
      obtain ⟨rfl, hword, full⟩ := h
      obtain rfl := (hcall (word % 0x1000)).2 ⟨hword, rfl⟩
      simp [faultOf?, full]

/-- A cycle that faults changes nothing but the record of the word. -/
theorem cycle_eq_error_iff {m m' : Machine} {fault : Fault} (hdepth : m.depth.toNat ≤ 16) :
    m.cycle = some (.error fault, m') ↔
      ∃ word, m.memory.word? m.counter = some word ∧ m.Refuses word fault ∧
        m' = { m with opcode := word } := by
  rw [cycle_eq_some_iff]
  refine exists_congr fun word => and_congr_right fun _ => ?_
  split
  · next hword =>
    have outside := (Instruction.decode_eq_none_iff word).1 hword
    refine and_congr_left fun _ => ?_
    rw [Except.error.injEq]
    cases fault with
    | unknownOpcode opcode address => simp [Refuses, outside]
    | stackUnderflow address =>
      have other : word ≠ 0x00EE := by
        rintro rfl
        exact absurd hword (by decide)
      simp [Refuses, other]
    | stackOverflow address =>
      have other : word.toNat / 0x1000 ≠ 2 := by
        unfold Instruction.Outside at outside
        omega
      simp [Refuses, other]
  · next i hi =>
    rw [execute_eq_error_iff]
    exact and_congr_left fun _ => faultOf?_eq_some_iff (m := { m with opcode := word }) hdepth hi

/-! ## Halted for good -/

end Machine

/-- What is done to a machine that has halted. -/
inductive Attempt where
  | cycle
  | tickTimers (ticks : Nat)
  | setKeypad (keypad : Keypad)
  deriving DecidableEq, Repr

namespace Machine

/-- Attempts in order: what came of the cycles among them, and the machine after them. -/
def attempt (m : Machine) : List Attempt → Option (List (Except Fault Progress) × Machine)
  | [] => some ([], m)
  | .cycle :: later => do
    let (outcome, m) ← m.cycle
    let (outcomes, m) ← m.attempt later
    return (outcome :: outcomes, m)
  | .tickTimers ticks :: later => (m.tickTimers ticks).attempt later
  | .setKeypad keypad :: later => (m.setKeypad keypad).attempt later

/-- The same without the cycles. -/
def attended (m : Machine) : List Attempt → Machine
  | [] => m
  | .cycle :: later => m.attended later
  | .tickTimers ticks :: later => (m.tickTimers ticks).attended later
  | .setKeypad keypad :: later => (m.setKeypad keypad).attended later

/-- A cycle would fault and change nothing at all. -/
structure Halted (m : Machine) (fault : Fault) : Prop where
  depth : m.depth.toNat ≤ 16
  cycle : m.cycle = some (.error fault, m)

namespace Halted

variable {m : Machine} {fault : Fault}

theorem of_cycle {m' : Machine} (hdepth : m.depth.toNat ≤ 16)
    (h : m.cycle = some (.error fault, m')) : m'.Halted fault := by
  obtain ⟨word, hword, refuses, rfl⟩ := (cycle_eq_error_iff hdepth).1 h
  refine ⟨hdepth, (cycle_eq_error_iff (m := { m with opcode := word }) hdepth).2 ?_⟩
  exact ⟨word, hword, refuses, rfl⟩

/-- Neither timers nor keys have a part in a fault. -/
theorem of_same {m' : Machine} (hm : m.Halted fault) (memory : m'.memory = m.memory)
    (counter : m'.counter = m.counter) (depth : m'.depth = m.depth)
    (opcode : m'.opcode = m.opcode) : m'.Halted fault := by
  obtain ⟨word, hword, refuses, eq⟩ := (cycle_eq_error_iff hm.depth).1 hm.cycle
  have recorded : m.opcode = word := congrArg Machine.opcode eq
  have hdepth : m'.depth.toNat ≤ 16 := depth ▸ hm.depth
  refine ⟨hdepth, (cycle_eq_error_iff hdepth).2 ⟨word, ?_, ?_, ?_⟩⟩
  · rw [memory, counter, hword]
  · exact (refuses_congr counter depth).2 refuses
  · rw [← recorded, ← opcode]

theorem tickTimers (hm : m.Halted fault) (ticks : Nat) : (m.tickTimers ticks).Halted fault :=
  hm.of_same rfl rfl rfl rfl

theorem setKeypad (hm : m.Halted fault) (keypad : Keypad) : (m.setKeypad keypad).Halted fault :=
  hm.of_same rfl rfl rfl rfl

/-- However often it is tried, and whatever is done in between. -/
theorem attempt_eq (hm : m.Halted fault) (attempts : List Attempt) :
    m.attempt attempts =
      some (List.replicate (attempts.count .cycle) (.error fault), m.attended attempts) := by
  induction attempts generalizing m with
  | nil => rfl
  | cons a later ih =>
    cases a with
    | cycle =>
      simp [attempt, attended, hm.cycle, ih hm, List.replicate_succ]
    | tickTimers ticks =>
      simp [attempt, attended, ih (hm.tickTimers ticks)]
    | setKeypad keypad =>
      simp [attempt, attended, ih (hm.setKeypad keypad)]

end Halted

/-! ## Main statement -/

/-- On a machine with all its memory and a stack within its cells: which words fault and how, that
nothing but the record of the word changes, and that the fault comes again for good. -/
theorem cycle_fault_final (m : Machine) (full : m.memory.bytes.size = Memory.size)
    (hdepth : m.depth.toNat ≤ 16) :
    ∃ (high low : UInt8) (word : UInt16),
      m.memory.bytes[m.counter.toNat % 0x1000]? = some high ∧
      m.memory.bytes[(m.counter.toNat + 1) % 0x1000]? = some low ∧
      word.toNat = high.toNat * 0x100 + low.toNat ∧
      (∀ fault, (∃ m', m.cycle = some (.error fault, m')) ↔ m.Refuses word fault) ∧
      ∀ fault m', m.cycle = some (.error fault, m') →
        m' = { m with opcode := word } ∧
        ∀ attempts, m'.attempt attempts =
          some (List.replicate (attempts.count .cycle) (.error fault), m'.attended attempts) := by
  obtain ⟨high, hhigh⟩ := Memory.exists_read? (Nat.le_of_eq full.symm) m.counter
  obtain ⟨low, hlow⟩ := Memory.exists_read? (Nat.le_of_eq full.symm) (m.counter + 1)
  have hword : m.memory.word? m.counter = some (high.toUInt16 * 0x100 + low.toUInt16) := by
    rw [Memory.word?, hhigh, hlow]
    rfl
  refine ⟨high, low, high.toUInt16 * 0x100 + low.toUInt16, hhigh, ?_, ?_, ?_, ?_⟩
  · have next : (m.counter + 1).toNat % 0x1000 = (m.counter.toNat + 1) % 0x1000 := by
      rw [UInt16.toNat_add]
      show (m.counter.toNat + 1) % 65536 % 4096 = _
      omega
    rw [← next]
    exact hlow
  · have hhigh := high.toNat_lt
    have hlow := low.toNat_lt
    rw [UInt16.toNat_add, UInt16.toNat_mul, UInt8.toNat_toUInt16, UInt8.toNat_toUInt16]
    show (high.toNat * 256 % 65536 + low.toNat) % 65536 = high.toNat * 256 + low.toNat
    omega
  · intro fault
    simp only [cycle_eq_error_iff hdepth, hword, Option.some.injEq]
    constructor
    · rintro ⟨_, _, rfl, refuses, -⟩
      exact refuses
    · intro refuses
      exact ⟨_, _, rfl, refuses, rfl⟩
  · intro fault m' h
    have halted := Halted.of_cycle hdepth h
    obtain ⟨word, hsame, -, rfl⟩ := (cycle_eq_error_iff hdepth).1 h
    obtain rfl : _ = word := Option.some.inj (hword.symm.trans hsame)
    exact ⟨rfl, halted.attempt_eq⟩

/-- The font is no program: its first two bytes are F0 and 90. -/
theorem cycle_fault_font :
    let m : Machine := { ofSeed ⟨false, false⟩ 1 with counter := 0x50 }
    m.memory.bytes.size = Memory.size ∧ m.depth.toNat ≤ 16 ∧
      ∃ m', m.cycle = some (.error (.unknownOpcode 0xF090 0x50), m') ∧
        m' = { m with opcode := 0xF090 } ∧
        ∀ attempts, m'.attempt attempts =
          some (List.replicate (attempts.count .cycle) (.error (.unknownOpcode 0xF090 0x50)),
            m'.attended attempts) := by
  intro m
  have full : m.memory.bytes.size = Memory.size := Memory.size_blank
  have hdepth : m.depth.toNat ≤ 16 := Nat.zero_le _
  obtain ⟨high, low, word, hhigh, hlow, hword, hiff, hfinal⟩ := cycle_fault_final m full hdepth
  have first : Memory.blank.bytes[Memory.fontStart + 0]? = some 0xF0 :=
    (Memory.getElem?_blank (by decide)).trans (by decide)
  have second : Memory.blank.bytes[Memory.fontStart + 1]? = some 0x90 :=
    (Memory.getElem?_blank (by decide)).trans (by decide)
  obtain rfl : 0xF0 = high := Option.some.inj (first.symm.trans hhigh)
  obtain rfl : 0x90 = low := Option.some.inj (second.symm.trans hlow)
  obtain rfl : word = 0xF090 := UInt16.toNat_inj.1 hword
  have refuses : m.Refuses 0xF090 (.unknownOpcode 0xF090 0x50) :=
    ⟨rfl, rfl, (Instruction.decode_eq_none_iff 0xF090).1 rfl⟩
  obtain ⟨m', h⟩ := (hiff _).2 refuses
  exact ⟨full, hdepth, m', h, hfinal _ m' h⟩

end Machine

end Chip8
