import Chip8.Proofs.Machine.Marks

/-!
# Shown or not

Whether a screen has been shown is one of the marks on a machine.  Machines that differ in it alone
go the same way, and what a cycle writes down of mode and word is the same for both:

    m.markShown = m'.markShown → m and m' cycle alike                             (cycle_congr)
-/

namespace Chip8

/-- Marks apart from whether the screen has been shown. -/
def Marks.shown (k : Marks) : Marks := { k with stale := false }

theorem Marks.shown_after (k : Marks) (i : Instruction) : (k.after i).shown = k.shown := by
  cases i <;> rfl

namespace Machine

theorem shown_marksAfter (m : Machine) {k k' : Marks} (h : k.shown = k'.shown) :
    (m.marksAfter k).shown = (m.marksAfter k').shown := by
  have recorded (opcode : UInt16) :
      ({ k with opcode } : Marks).shown = ({ k' with opcode } : Marks).shown :=
    congrArg (fun k : Marks => ({ k with opcode } : Marks)) h
  unfold marksAfter
  cases m.memory.word? m.counter with
  | none => exact h
  | some opcode =>
    simp only
    cases Instruction.decode opcode with
    | none => exact recorded opcode
    | some i =>
      rw [Marks.shown_after, Marks.shown_after]
      exact recorded opcode

/-- Machines that are alike cycle alike. -/
theorem cycle_congr {m m' : Machine} (h : m.markShown = m'.markShown) :
    m.cycle = none ∧ m'.cycle = none ∨
      ∃ result m₁ m₁', m.cycle = some (result, m₁) ∧ m'.cycle = some (result, m₁') ∧
        m₁.markShown = m₁'.markShown := by
  have hmarks : m.marks.shown = m'.marks.shown := congrArg marks h
  have hm' : m' = m.mark m'.marks := by
    have bare := congrArg (·.mark m'.marks) h
    exact bare.symm
  have hcycle' := cycle_mark m m'.marks
  have hcycle := cycle_mark m m.marks
  rw [mark_marks] at hcycle
  rw [← hm'] at hcycle'
  cases ended : m.cycle with
  | none =>
    rw [ended] at hcycle'
    exact .inl ⟨rfl, hcycle'⟩
  | some pair =>
    obtain ⟨result, m₁⟩ := pair
    rw [ended] at hcycle hcycle'
    have hm₁ : m₁ = m₁.mark (m.marksAfter m.marks) := congrArg Prod.snd (Option.some.inj hcycle)
    refine .inr ⟨result, m₁, _, rfl, hcycle', ?_⟩
    show m₁.markShown = m₁.mark (m.marksAfter m'.marks).shown
    rw [← shown_marksAfter m hmarks, hm₁]
    rfl

end Machine

end Chip8
