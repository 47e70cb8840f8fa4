import Chip8.Proofs.Machine.Sides
import Chip8.Proofs.Machine.WellFormed

/-!
# Marks that no program reads

Three things stand on a machine for others to look at: its mode, whether its screen has been shown,
and the word it fetched last.  They are written and never read, so a machine marked in another way
does the same at every instruction, fault or not, and is marked in another way after it:

    (m.mark k).execute i = (m.execute i).map (the same, marked with k.after i)        (execute_mark)
    (m.mark k).cycle = m.cycle.map (the same, marked with m.marksAfter k)               (cycle_mark)

With programs loaded, ticks and keys in between, that goes for every run (`serve_mark`).
-/

namespace Chip8

/-- What stands on a machine for others to look at. -/
structure Marks where
  mode : Mode
  stale : Bool
  opcode : UInt16
  deriving DecidableEq, Repr

/-- Instructions that change the screen note that it is stale. -/
def Marks.after (k : Marks) : Instruction → Marks
  | .clear | .draw .. => { k with stale := true }
  | _ => k

namespace Machine

def marks (m : Machine) : Marks := ⟨m.mode, m.stale, m.opcode⟩

/-- The machine with other marks. -/
def mark (m : Machine) (k : Marks) : Machine :=
  { m with mode := k.mode, stale := k.stale, opcode := k.opcode }

theorem mark_marks (m : Machine) : m.mark m.marks = m := rfl

/-! ## One instruction -/

/-- A result, with other marks on the machine that it left. -/
def remark {α : Type} (k : Marks) (ended : Option (α × Machine)) : Option (α × Machine) :=
  ended.map (Prod.map id (·.mark k))

section
variable (m : Machine) (k : Marks)

theorem execute_mark (i : Instruction) :
    (m.mark k).execute i = remark (k.after i) (m.execute i) := by
  let s : Sides := { m.sides with mode := k.mode, stale := k.stale, opcode := k.opcode }
  have marked : m.mark k = m.beside s := rfl
  rw [marked]
  refine execute_beside_eq (·.mark (k.after i)) (.refl m.index) (fun _ => rfl) (fun _ => rfl) ?_
  intro m'
  cases i <;> rfl

/-! ## One cycle -/

/-- The marks after a cycle: the word is on record, and the screen is stale if it was drawn on. -/
def marksAfter : Marks :=
  match m.memory.word? m.counter with
  | none => k
  | some opcode =>
    match Instruction.decode opcode with
    | none => { k with opcode }
    | some i => Marks.after { k with opcode } i

theorem cycle_mark : (m.mark k).cycle = remark (m.marksAfter k) m.cycle := by
  have same : (m.mark k).memory.word? (m.mark k).counter = m.memory.word? m.counter := rfl
  simp only [cycle, marksAfter, same]
  cases m.memory.word? m.counter with
  | none => rfl
  | some opcode =>
    simp only [Option.bind_eq_bind, Option.bind_some]
    cases Instruction.decode opcode with
    | none => rfl
    | some i => exact execute_mark { m with opcode } { k with opcode } i

end

end Machine

/-! ## Many calls -/

/-- Something asked of a machine. -/
inductive Call where
  | load (program : List UInt8)
  | cycle
  | tickTimers (ticks : Nat)
  | setKeypad (keypad : Keypad)
  deriving DecidableEq, Repr

/-- What a machine answers. -/
inductive Answer where
  | done
  | refused (problem : Memory.LoadError)
  | cycled (outcome : Except Fault Progress)
  deriving Repr

namespace Machine

/-- One call.  A damaged machine may have no answer. -/
def answer (m : Machine) : Call → Option (Answer × Machine)
  | .load program => (m.load program).map fun
    | .ok m => (.done, m)
    | .error problem => (.refused problem, m)
  | .cycle => m.cycle.map (Prod.map .cycled id)
  | .tickTimers ticks => some (.done, m.tickTimers ticks)
  | .setKeypad keypad => some (.done, m.setKeypad keypad)

/-- Calls in order, each with its answer. -/
def serve (m : Machine) : List Call → Option (List Answer × Machine)
  | [] => some ([], m)
  | c :: later => do
    let (a, m) ← m.answer c
    let (as, m) ← m.serve later
    return (a :: as, m)

theorem answer_mark (m : Machine) (k : Marks) (c : Call) :
    ∃ k', (m.mark k).answer c = remark k' (m.answer c) := by
  cases c with
  | load program =>
    refine ⟨k, ?_⟩
    show (((m.memory.load program).map _).map _) = remark k (((m.memory.load program).map _).map _)
    rcases m.memory.load program with _ | (problem | memory) <;> rfl
  | cycle =>
    refine ⟨m.marksAfter k, ?_⟩
    simp only [answer, cycle_mark]
    cases m.cycle <;> rfl
  | tickTimers ticks => exact ⟨k, rfl⟩
  | setKeypad keypad => exact ⟨k, rfl⟩

theorem exists_serve_mark (m : Machine) (k : Marks) (calls : List Call) :
    ∃ k', (m.mark k).serve calls = remark k' (m.serve calls) := by
  induction calls generalizing m k with
  | nil => exact ⟨k, rfl⟩
  | cons c later ih =>
    obtain ⟨k₁, hanswer⟩ := answer_mark m k c
    simp only [serve, hanswer]
    rcases m.answer c with _ | ⟨a, m₁⟩
    · exact ⟨k₁, rfl⟩
    · obtain ⟨k₂, hserve⟩ := ih m₁ k₁
      refine ⟨k₂, ?_⟩
      show ((m₁.mark k₁).serve later).bind _ = remark k₂ ((m₁.serve later).bind _)
      rw [hserve]
      rcases m₁.serve later with _ | ⟨as, m₂⟩ <;> rfl

/-- A machine that was never read from a file answers every call. -/
theorem WellFormed.exists_serve {m : Machine} (hm : m.WellFormed) (calls : List Call) :
    ∃ ended, m.serve calls = some ended := by
  induction calls generalizing m with
  | nil => exact ⟨_, rfl⟩
  | cons c later ih =>
    obtain ⟨a, m₁, hanswer, hm₁⟩ : ∃ a m₁, m.answer c = some (a, m₁) ∧ m₁.WellFormed := by
      cases c with
      | load program =>
        obtain ⟨loaded, hload⟩ := Memory.exists_load (Nat.le_of_eq hm.memory.symm) program
        simp only [answer, load, hload, Option.map_some]
        cases loaded with
        | error problem => exact ⟨_, m, rfl, hm⟩
        | ok memory =>
          exact ⟨_, _, rfl, { hm with memory := (Memory.size_load hload).trans hm.memory }⟩
      | cycle =>
        obtain ⟨outcome, m₁, hcycle, hm₁⟩ := hm.exists_cycle
        exact ⟨.cycled outcome, m₁, by rw [answer, hcycle]; rfl, hm₁⟩
      | tickTimers ticks => exact ⟨_, _, rfl, { hm with }⟩
      | setKeypad keypad => exact ⟨_, _, rfl, { hm with }⟩
    obtain ⟨⟨as, m₂⟩, hserve⟩ := ih hm₁
    exact ⟨(a :: as, m₂), by simp [serve, hanswer, hserve]⟩

/-! ## Main statement -/

/-- Machines that differ in their marks alone, damaged or not, give the same answers to the same
calls, or neither gives one, and differ in their marks alone afterwards.  So a machine of either
resolution runs any program as it would with the other sign of `superChip`. -/
theorem serve_mark (calls : List Call) :
    (∀ (m : Machine) (k : Marks),
      m.serve calls = none ∧ (m.mark k).serve calls = none ∨
      ∃ answers m' k', m.serve calls = some (answers, m') ∧
        (m.mark k).serve calls = some (answers, m'.mark k')) ∧
    ∀ hiRes seed, ∃ answers m' k',
      (ofSeed ⟨hiRes, false⟩ seed).serve calls = some (answers, m') ∧
      (ofSeed ⟨hiRes, true⟩ seed).serve calls = some (answers, m'.mark k') := by
  have agree (m : Machine) (k : Marks) : m.serve calls = none ∧ (m.mark k).serve calls = none ∨
      ∃ answers m' k', m.serve calls = some (answers, m') ∧
        (m.mark k).serve calls = some (answers, m'.mark k') := by
    obtain ⟨k', hmark⟩ := exists_serve_mark m k calls
    rw [hmark]
    rcases m.serve calls with _ | ⟨answers, m'⟩
    · exact .inl ⟨rfl, rfl⟩
    · exact .inr ⟨answers, m', k', rfl, rfl⟩
  refine ⟨agree, fun hiRes seed => ?_⟩
  rcases agree (ofSeed ⟨hiRes, false⟩ seed) ⟨⟨hiRes, true⟩, false, 0⟩ with ⟨stuck, -⟩ | same
  · obtain ⟨ended, hserve⟩ :=
      (wellFormed_fresh ⟨hiRes, false⟩ (.ofSeed seed)).exists_serve calls
    exact absurd (stuck.symm.trans hserve) (by simp)
  · exact same

end Machine

end Chip8
