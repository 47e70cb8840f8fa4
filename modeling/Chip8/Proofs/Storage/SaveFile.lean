import Chip8.Storage.SaveFile
import Chip8.Proofs.Json.Record

/-!
# Save files read back

Every part of a machine is written in a form that is read back, so a save file gives back exactly
the program name and the machine that were put into it, whatever they are: nothing is checked but
the version, and nothing is dropped.

    read_written : SaveFile.read file.write = .ok file

A file that lost its end, or that something was added to, is never taken for another one: cut short
it is refused as such at every byte, and only blanks may follow it (`read_damaged`).
-/

namespace Chip8

open Json Codec

/-! ## Parts of a machine -/

theorem Memory.faithful_codec : Memory.codec.Faithful :=
  faithful_transport
    (Fields.faithful_codec ⟨faithful_array faithful_uint8, trivial⟩ (by simp [Fields.names]))
    fun _ => rfl

theorem Timers.faithful_codec : Timers.codec.Faithful :=
  faithful_transport
    (Fields.faithful_codec ⟨faithful_uint8, faithful_uint8, trivial⟩ (by simp [Fields.names]))
    fun _ => rfl

theorem Screen.faithful_codec : Screen.codec.Faithful :=
  faithful_transport
    (Fields.faithful_codec
      ⟨faithful_uint64, faithful_uint64, faithful_array faithful_bool, trivial⟩
      (by simp [Fields.names]))
    fun _ => rfl

theorem Mode.faithful_codec : Mode.codec.Faithful :=
  faithful_transport
    (Fields.faithful_codec ⟨faithful_bool, faithful_bool, trivial⟩ (by simp [Fields.names]))
    fun _ => rfl

/-- Positions have 68 bits, and numbers of up to 128 are read. -/
theorem Random.faithful_codec : Random.codec.Faithful :=
  faithful_transport
    (Fields.faithful_codec
      ⟨faithful_vector faithful_uint8 32, faithful_uint64,
        faithful_wide fun n => Nat.lt_trans n.isLt (by decide), trivial⟩
      (by simp [Fields.names]))
    fun _ => rfl

theorem Machine.faithful_codec : Machine.codec.Faithful :=
  faithful_transport
    (Fields.faithful_codec
      ⟨Memory.faithful_codec, faithful_vector faithful_uint8 16, faithful_uint16, faithful_uint16,
        faithful_vector faithful_uint16 16, faithful_uint8, faithful_vector faithful_bool 16,
        Timers.faithful_codec, Screen.faithful_codec, Mode.faithful_codec, faithful_bool,
        faithful_uint16, Random.faithful_codec, trivial⟩
      (by simp [Fields.names]))
    fun _ => rfl

/-! ## Files -/

namespace SaveFile

theorem closed_codec : codec.Closed :=
  closed_transport
    (Fields.closed_codec
      ⟨faithful_uint32, faithful_text,
        Fields.faithful_codec ⟨Machine.faithful_codec, trivial⟩ (by simp [Fields.names]), trivial⟩
      (by simp [Fields.names]))
    fun _ => rfl

/-- Program and machine as they were read, when nothing but blanks comes after them. -/
theorem parse_write_append (file : SaveFile) (tail : List UInt8) :
    parse codec.read (file.write ++ tail) =
      if tail.all isBlank then .ok (saveVersion, file.program, file.machine)
      else .error .malformed := by
  have hread := closed_codec.read_append (saveVersion, file.program, file.machine) tail
  simp only [parse, write, hread]

theorem parse_write (file : SaveFile) :
    parse codec.read file.write = .ok (saveVersion, file.program, file.machine) := by
  have hparse := parse_write_append file []
  rw [List.append_nil] at hparse
  exact hparse

theorem parse_write_torn (file : SaveFile) {front back : List UInt8}
    (h : file.write = front ++ back) (torn : back ≠ []) :
    parse codec.read front = .error .truncated := by
  have hread := closed_codec.torn (saveVersion, file.program, file.machine) front back h torn
  simp only [parse, hread]

/-- Every file is read back, with any machine and any name. -/
theorem read_written (file : SaveFile) : read file.write = .ok file := by
  simp only [read, parse_write, if_true]

/-- A file cut short at any byte is refused as cut short.  With blanks behind it, it is read like
the file it is, and with anything else it is refused as malformed. -/
theorem read_damaged (file : SaveFile) (k : Nat) (tail : List UInt8) :
    read (file.write.take k) =
        (if k < file.write.length then .error (.json .truncated) else .ok file) ∧
      read (file.write ++ tail) =
        if tail.all isBlank then .ok file else .error (.json .malformed) := by
  constructor
  · by_cases short : k < file.write.length
    · have some_lost : file.write.drop k ≠ [] := by
        intro none
        have := List.drop_eq_nil_iff.1 none
        omega
      have halves : file.write = file.write.take k ++ file.write.drop k :=
        (List.take_append_drop k file.write).symm
      simp only [read, parse_write_torn file halves some_lost, if_pos short]
    · rw [List.take_of_length_le (Nat.le_of_not_lt short), if_neg short]
      simp only [read, parse_write, if_true]
  · rw [read, parse_write_append]
    cases tail.all isBlank with
    | true => rfl
    | false => rfl

end SaveFile

end Chip8
