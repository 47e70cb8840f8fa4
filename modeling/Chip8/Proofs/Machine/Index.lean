import Chip8.Proofs.Machine.Calls
import Chip8.Proofs.Machine.Sides

/-!
# The index names a byte

The index register has 16 bits and sums on it wrap at 16 bits, but it only ever names a byte of
memory, and of those there are 4096.  So two indexes that name the same byte cannot be told apart:
an instruction does the same with either and leaves indexes that name the same byte again.

    SamePlace index m.index →
      (m.pointAt index).execute i = (m.execute i).map (the same, pointing at m.indexAfter index i)
                                                                             (execute_pointAt)

By induction that goes for every run of cycles, ticks and keys (`attempt_pointAt`).
-/

namespace Chip8

namespace Machine

open Memory (SamePlace)

/-! ## One instruction -/

/-- The machine with another index. -/
def pointAt (m : Machine) (index : UInt16) : Machine := { m with index }

section
variable {m : Machine} {index : UInt16}

theorem samePlace_indexAfter {other : UInt16} (h : SamePlace index other) (i : Instruction) :
    SamePlace (m.indexAfter index i) (m.indexAfter other i) := by
  cases i
  case advanceIndex x => exact h.add _
  case setIndex | pointAtGlyph => exact .refl _
  all_goals exact h

theorem execute_pointAt (h : SamePlace index m.index) (i : Instruction) :
    (m.pointAt index).execute i =
      (m.execute i).map (Prod.map id (·.pointAt (m.indexAfter index i))) := by
  have pointed : m.pointAt index = m.beside { m.sides with index } := rfl
  rw [pointed]
  exact execute_beside_eq (·.pointAt (m.indexAfter index i)) h (fun _ => rfl) (fun _ => rfl)
    fun _ => rfl

/-- The index after an instruction, whatever its outcome. -/
theorem index_execute {m' : Machine} {i : Instruction} {outcome : Except Fault Progress}
    (h : m.execute i = some (outcome, m')) : m'.index = m.indexAfter m.index i :=
  congrArg Sides.index (sides_execute h)

/-! ## One cycle -/

theorem cycle_pointAt (h : SamePlace index m.index) :
    ∃ index', (m.pointAt index).cycle = m.cycle.map (Prod.map id (·.pointAt index')) ∧
      ∀ outcome m', m.cycle = some (outcome, m') → SamePlace index' m'.index := by
  have same : (m.pointAt index).memory.word? (m.pointAt index).counter =
      m.memory.word? m.counter := rfl
  simp only [cycle, same]
  cases m.memory.word? m.counter with
  | none =>
    refine ⟨index, rfl, fun outcome m' hcycle => ?_⟩
    cases hcycle
  | some opcode =>
    simp only [Option.bind_eq_bind, Option.bind_some]
    cases Instruction.decode opcode with
    | none =>
      refine ⟨index, rfl, fun outcome m' hcycle => ?_⟩
      obtain ⟨-, rfl⟩ := Prod.mk.inj (Option.some.inj hcycle)
      exact h
    | some i =>
      refine ⟨_, execute_pointAt (m := { m with opcode }) h i, fun outcome m' hcycle => ?_⟩
      rw [index_execute hcycle]
      exact samePlace_indexAfter h i

/-! ## Many cycles -/

/-- By induction on the attempts, for any two indexes of the same byte. -/
theorem attempt_pointAt (h : SamePlace index m.index) (attempts : List Attempt) :
    ∃ index', (m.pointAt index).attempt attempts =
        (m.attempt attempts).map (Prod.map id (·.pointAt index')) ∧
      ∀ outcomes m', m.attempt attempts = some (outcomes, m') → SamePlace index' m'.index := by
  induction attempts generalizing m index with
  | nil =>
    refine ⟨index, rfl, fun outcomes m' hattempt => ?_⟩
    obtain ⟨-, rfl⟩ := Prod.mk.inj (Option.some.inj hattempt)
    exact h
  | cons a later ih =>
    cases a with
    | cycle =>
      obtain ⟨index₁, hcycle, hplace⟩ := cycle_pointAt h
      rcases hm : m.cycle with _ | ⟨outcome, m₁⟩
      · have stuck : m.attempt (.cycle :: later) = none := by simp [attempt, hm]
        rw [stuck]
        refine ⟨index, by simp [attempt, hcycle, hm], fun outcomes m' hattempt => ?_⟩
        cases hattempt
      · obtain ⟨index₂, hlater, hplace₂⟩ := ih (hplace outcome m₁ hm)
        refine ⟨index₂, ?_, fun outcomes m' hattempt => ?_⟩
        · simp only [attempt, hcycle, hm]
          show ((m₁.pointAt index₁).attempt later).bind _ = ((m₁.attempt later).bind _).map _
          rw [hlater]
          rcases m₁.attempt later with _ | ⟨outcomes, m₂⟩ <;> rfl
        · obtain ⟨_, _, after, hfirst, hafter, -⟩ := attempt_cycle_eq_some_iff.1 hattempt
          obtain ⟨-, rfl⟩ := Prod.mk.inj (Option.some.inj (hm.symm.trans hfirst))
          exact hplace₂ after m' hafter
    | tickTimers ticks => exact ih (m := m.tickTimers ticks) h
    | setKeypad keypad => exact ih (m := m.setKeypad keypad) h

end

/-! ## Main statement -/

/-- Two machines with all their memory and pixels and a stack within its cells, alike but for
indexes that are congruent modulo 4096, go the same way for ever: attempt after attempt has the same
outcome on both, and the machines stay alike but for indexes that are congruent. -/
theorem attempt_modulo_index (m : Machine) (index : UInt16)
    (full : m.memory.bytes.size = Memory.size) (hdepth : m.depth.toNat ≤ 16)
    (whole : m.screen.Whole) (congruent : index.toNat % 0x1000 = m.index.toNat % 0x1000)
    (attempts : List Attempt) :
    ∃ outcomes m' index', m.attempt attempts = some (outcomes, m') ∧
      ({ m with index } : Machine).attempt attempts = some (outcomes, { m' with index := index' }) ∧
      index'.toNat % 0x1000 = m'.index.toNat % 0x1000 := by
  have sturdy : m.Sturdy := ⟨Nat.le_of_eq full.symm, hdepth, whole.drawable⟩
  obtain ⟨outcomes, m', hattempt, -⟩ := sturdy.exists_attempt attempts
  obtain ⟨index', hpointed, hplace⟩ := attempt_pointAt (m := m) congruent attempts
  rw [hattempt] at hpointed
  exact ⟨outcomes, m', index', hattempt, hpointed, hplace outcomes m' hattempt⟩

/-- An index of 0xFFFE, that a store runs with past 0xFFFF, beside one of 0xFFE: the program adds to
it, stores three digits and draws them. -/
theorem attempt_modulo_index_top :
    let program : List UInt8 := [0x60, 0x01, 0xF0, 0x1E, 0xF0, 0x33, 0xD0, 0x03]
    let attempts : List Attempt := [.cycle, .cycle, .tickTimers 2, .cycle, .cycle]
    ∃ memory, Memory.blank.load program = some (.ok memory) ∧
      memory.bytes.size = Memory.size ∧
      let m : Machine := { fresh ⟨false, false⟩ (.ofSeed 3) with memory, index := 0x0FFE }
      m.depth.toNat ≤ 16 ∧ m.screen.Whole ∧
      (0xFFFE : UInt16).toNat % 0x1000 = m.index.toNat % 0x1000 ∧
      ∃ outcomes m' index', m.attempt attempts = some (outcomes, m') ∧
        ({ m with index := 0xFFFE } : Machine).attempt attempts =
          some (outcomes, { m' with index := index' }) ∧
        index'.toNat % 0x1000 = m'.index.toNat % 0x1000 := by
  intro program attempts
  have room : Memory.size ≤ Memory.blank.bytes.size := Nat.le_of_eq Memory.size_blank.symm
  obtain ⟨memory, hload⟩ := Memory.load_of_fits room (by decide : program.length ≤ _)
  have full : memory.bytes.size = Memory.size := (Memory.size_load hload).trans Memory.size_blank
  have fit := wellFormed_fresh ⟨false, false⟩ (.ofSeed 3)
  have congruent : (0xFFFE : UInt16).toNat % 0x1000 = (0x0FFE : UInt16).toNat % 0x1000 := by decide
  refine ⟨memory, hload, full, ?_⟩
  intro m
  have hdepth : m.depth.toNat ≤ 16 := fit.depth
  have whole : m.screen.Whole := fit.whole
  exact ⟨hdepth, whole, congruent,
    attempt_modulo_index m 0xFFFE full hdepth whole congruent attempts⟩

end Machine

end Chip8
