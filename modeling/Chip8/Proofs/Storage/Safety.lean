import Chip8.Proofs.Machine.Damage
import Chip8.Proofs.Storage.SaveFile

/-!
# Which saves are safe

Reading looks at the form of a text and at its version, and at nothing that the numbers in it say to
each other: every machine, whole or damaged, is read back from some text.  So a text is safe exactly
if the machine in it is usable, and where that machine is not even sturdy, there is a text that is
read just as well, with a machine of the same build that comes to a stop.

    Safe text ↔ ∀ file, read text = .ok file → file.machine.Usable              (safe_iff)
-/

namespace Chip8.SaveFile

/-- What is read from a text can be used, and then goes on with any keys. -/
def Safe (text : List UInt8) : Prop :=
  ∀ file, read text = .ok file →
    file.machine.Usable ∧ ∀ keypads, ∃ last, file.machine.cycles keypads = some last

/-- Nothing about a machine keeps it out of a file that is read. -/
theorem exists_read (program : String) (m : Machine) : ∃ text, read text = .ok ⟨program, m⟩ :=
  ⟨write ⟨program, m⟩, by simp only [read, parse_write, if_true]⟩

theorem not_safe_write {file : SaveFile} (damaged : ¬file.machine.Usable) : ¬Safe file.write :=
  fun safe => damaged (safe file (by simp only [read, parse_write, if_true])).1

/-- A text is safe just if the machine in it can be used, and reading does not ask for that.  So where
a machine is sturdy, any other of its build that a text brings goes on with any keys, and where it is
not, some text brings one of its build that comes to a stop. -/
theorem safe_iff (text : List UInt8) :
    (Safe text ↔ ∀ file, read text = .ok file → file.machine.Usable) ∧
      ∀ file, read text = .ok file →
        (file.machine.Sturdy ↔
          ∀ text' other, read text' = .ok ⟨file.program, other⟩ → file.machine.SameBuild other →
            ∀ keypads, ∃ last, other.cycles keypads = some last) := by
  constructor
  · constructor
    · intro h file hfile
      exact (h file hfile).1
    · intro h file hfile
      have usable := h file hfile
      refine ⟨usable, fun keypads => ?_⟩
      obtain ⟨last, hlast, -⟩ := usable.exists_cycles keypads
      exact ⟨last, hlast⟩
  · intro file _
    rw [Machine.sturdy_iff]
    constructor
    · intro h _ other _ hother
      exact h other hother
    · intro h other hother
      obtain ⟨text', htext⟩ := exists_read file.program other
      exact h text' other htext hother

/-- A save of a program that returns, with a stack deeper than its cells. -/
theorem not_safe_deep :
    ∃ m, (Machine.ofSeed ⟨false, false⟩ 1).load [0x00, 0xEE] = some (.ok m) ∧
      ¬Safe (write ⟨"pong", { m with depth := 17 }⟩) ∧
      ({ m with depth := 17 } : Machine).cycle = none := by
  have full : Memory.size ≤ Memory.blank.bytes.size := Nat.le_of_eq Memory.size_blank.symm
  have fits : ([0x00, 0xEE] : List UInt8).length ≤ Memory.maxProgram := by decide
  obtain ⟨memory, hload⟩ := Memory.load_of_fits full fits
  refine ⟨{ Machine.ofSeed ⟨false, false⟩ 1 with memory }, ?_, ?_, ?_⟩
  · show (Memory.blank.load [0x00, 0xEE]).map _ = _
    rw [hload]
    rfl
  · apply not_safe_write
    intro usable
    exact absurd usable.depth (by show ¬(17 : UInt8).toNat ≤ 16; decide)
  · exact Machine.cycle_deep (Memory.word?_load hload) (by show 16 < (17 : UInt8).toNat; decide)

end Chip8.SaveFile
