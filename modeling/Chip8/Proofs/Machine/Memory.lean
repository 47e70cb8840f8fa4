import Chip8.Machine.Memory

/-!
# Bytes that are there

In a memory with all its bytes every address can be read and written, and a program that fits can
be loaded; it is then read from where programs start.

    size ≤ m.bytes.size → ∃ word, m.word? address = some word                   (exists_word?)
    m.load (high :: low :: later) = some (.ok m') →
        m'.word? 0x200 = some (high.toUInt16 * 0x100 + low.toUInt16)            (word?_load)
-/

namespace Chip8.Memory

/-- Below `size`, an address is the place of its byte. -/
theorem toNat_ofNat_mod {place : Nat} (h : place < size) :
    (UInt16.ofNat place).toNat % size = place := by
  unfold size at h ⊢
  rw [UInt16.toNat_ofNat_of_lt' (by unfold UInt16.size; omega)]
  exact Nat.mod_eq_of_lt h

/-- Blank memory holds the font where it should be. -/
theorem getElem?_blank {place : Nat} (h : place < font.size) :
    blank.bytes[fontStart + place]? = font[place]? := by
  have hstart : (Array.replicate fontStart (0 : UInt8)).size = fontStart := Array.size_replicate
  simp only [blank]
  rw [Array.getElem?_append_left (by rw [Array.size_append, hstart]; omega),
    Array.getElem?_append_right (by omega), hstart, Nat.add_sub_cancel_left]

/-- All else in blank memory is zero. -/
theorem getElem?_blank_zero {place : Nat} (h : place < size)
    (outside : place < fontStart ∨ fontStart + font.size ≤ place) :
    blank.bytes[place]? = some 0 := by
  have hstart : (Array.replicate fontStart (0 : UInt8)).size = fontStart := Array.size_replicate
  simp only [blank]
  rcases outside with before | after
  · rw [Array.append_assoc, Array.getElem?_append_left (by rw [hstart]; exact before),
      Array.getElem?_replicate, if_pos before]
  · rw [Array.getElem?_append_right (by rw [Array.size_append, hstart]; exact after),
      Array.size_append, hstart, Array.getElem?_replicate, if_pos (by omega)]

/-- Without a program, the first word to execute is zero. -/
theorem word?_blank : blank.word? 0x200 = some 0 := by
  have high : blank.read? 0x200 = some 0 := getElem?_blank_zero (by decide) (by decide)
  have low : blank.read? (0x200 + 1) = some 0 := getElem?_blank_zero (by decide) (by decide)
  rw [word?, high, low]
  rfl

/-! ## Programs -/

theorem load_eq_ok_iff {m m' : Memory} {program : List UInt8} :
    m.load program = some (.ok m') ↔
      program.length ≤ maxProgram ∧ programStart + program.length ≤ m.bytes.size ∧
        m' = ⟨m.bytes.extract 0 programStart ++ program.toArray
          ++ m.bytes.extract (programStart + program.length) m.bytes.size⟩ := by
  simp only [load]
  split
  · next big => simp [Nat.not_le.2 big]
  · next small =>
    split
    · next fits => simp [Nat.le_of_not_lt small, fits, eq_comm]
    · next short => simp [short]

/-- Loading changes bytes and never their number. -/
theorem size_load {m m' : Memory} {program : List UInt8} (h : m.load program = some (.ok m')) :
    m'.bytes.size = m.bytes.size := by
  obtain ⟨-, fits, rfl⟩ := load_eq_ok_iff.1 h
  simp only [Array.size_append, Array.size_extract, List.size_toArray]
  omega

/-- A program takes the places from `programStart` on, as many as it has bytes. -/
theorem getElem?_load {m m' : Memory} {program : List UInt8}
    (h : m.load program = some (.ok m')) (place : Nat) :
    m'.bytes[place]? =
      if programStart ≤ place ∧ place < programStart + program.length then
        program[place - programStart]?
      else m.bytes[place]? := by
  obtain ⟨-, fits, rfl⟩ := load_eq_ok_iff.1 h
  have hstart : (m.bytes.extract 0 programStart).size = programStart := by
    rw [Array.size_extract, Nat.min_eq_left (by omega), Nat.sub_zero]
  have hstop : (m.bytes.extract 0 programStart ++ program.toArray).size =
      programStart + program.length := by
    rw [Array.size_append, hstart, List.size_toArray]
  by_cases before : place < programStart
  · rw [if_neg (by omega), Array.append_assoc, Array.getElem?_append_left (by omega),
      Array.getElem?_extract, if_pos (by omega), Nat.zero_add]
  by_cases inside : place < programStart + program.length
  · rw [if_pos (by omega), Array.getElem?_append_left (by omega),
      Array.getElem?_append_right (by omega), hstart, List.getElem?_toArray]
  · rw [if_neg (by omega), Array.getElem?_append_right (by omega), hstop, Array.getElem?_extract]
    split
    · congr 1
      omega
    · rw [Array.getElem?_eq_none (by omega)]

/-- A program that was loaded is read from where programs start. -/
theorem read?_load {m m' : Memory} {program : List UInt8} (h : m.load program = some (.ok m'))
    {place : Nat} (hplace : place < program.length) :
    m'.read? (UInt16.ofNat (programStart + place)) = program[place]? := by
  have small := (load_eq_ok_iff.1 h).1
  have inside : programStart + place < size := by
    unfold maxProgram at small
    unfold programStart size at small ⊢
    omega
  rw [read?, toNat_ofNat_mod inside, getElem?_load h, if_pos (by omega), Nat.add_sub_cancel_left]

theorem word?_load_at {m m' : Memory} {program : List UInt8} (h : m.load program = some (.ok m'))
    {place : Nat} {high low : UInt8} (hhigh : program[place]? = some high)
    (hlow : program[place + 1]? = some low) :
    m'.word? (UInt16.ofNat (programStart + place)) =
      some (high.toUInt16 * 0x100 + low.toUInt16) := by
  have inside : place + 1 < program.length := (List.getElem?_eq_some_iff.1 hlow).1
  have next : UInt16.ofNat (programStart + place) + 1 =
      UInt16.ofNat (programStart + (place + 1)) := by
    rw [← Nat.add_assoc, UInt16.ofNat_add (programStart + place)]
    rfl
  rw [word?, next, read?_load h (by omega), read?_load h inside, hhigh, hlow]
  rfl

/-- The value of a word, high byte first. -/
theorem toNat_word (high low : UInt8) :
    (high.toUInt16 * 0x100 + low.toUInt16).toNat = high.toNat * 0x100 + low.toNat := by
  have hhigh := high.toNat_lt
  have hlow := low.toNat_lt
  rw [UInt16.toNat_add, UInt16.toNat_mul, UInt8.toNat_toUInt16, UInt8.toNat_toUInt16]
  show (high.toNat * 256 % 65536 + low.toNat) % 65536 = high.toNat * 256 + low.toNat
  omega

theorem word?_load {m m' : Memory} {high low : UInt8} {later : List UInt8}
    (h : m.load (high :: low :: later) = some (.ok m')) :
    m'.word? 0x200 = some (high.toUInt16 * 0x100 + low.toUInt16) := by
  have hhigh : (high :: low :: later)[0]? = some high := rfl
  have hword := word?_load_at h hhigh rfl
  exact hword

theorem load_of_fits {m : Memory} (full : size ≤ m.bytes.size) {program : List UInt8}
    (fits : program.length ≤ maxProgram) : ∃ m', m.load program = some (.ok m') := by
  have room : programStart + program.length ≤ m.bytes.size := by
    unfold maxProgram programStart size at fits
    unfold size at full
    unfold programStart
    omega
  exact ⟨_, by rw [load, if_neg (Nat.not_lt.2 fits), if_pos room]⟩

/-- A machine that is started takes every program that fits. -/
theorem exists_load_blank {program : List UInt8} (fits : program.length ≤ maxProgram) :
    ∃ m, blank.load program = some (.ok m) ∧ m.bytes.size = size := by
  obtain ⟨m, hload⟩ := load_of_fits (Nat.le_of_eq size_blank.symm) fits
  exact ⟨m, hload, (size_load hload).trans size_blank⟩

/-- A memory with all its bytes takes every program or refuses it. -/
theorem exists_load {m : Memory} (full : size ≤ m.bytes.size) (program : List UInt8) :
    ∃ loaded, m.load program = some loaded := by
  by_cases big : maxProgram < program.length
  · exact ⟨_, if_pos big⟩
  · obtain ⟨m', hload⟩ := load_of_fits full (Nat.le_of_not_lt big)
    exact ⟨_, hload⟩

/-! ## Addresses of the same byte -/

/-- The addresses name the same byte. -/
def SamePlace (a b : UInt16) : Prop := a.toNat % size = b.toNat % size

section
variable {m : Memory} {a b : UInt16}

theorem SamePlace.refl (a : UInt16) : SamePlace a a := rfl

/-- Addresses wrap at 16 bits, and the size of memory divides that. -/
theorem SamePlace.add (h : SamePlace a b) (offset : UInt16) :
    SamePlace (a + offset) (b + offset) := by
  have h : a.toNat % 4096 = b.toNat % 4096 := h
  show (a + offset).toNat % 4096 = (b + offset).toNat % 4096
  rw [UInt16.toNat_add, UInt16.toNat_add]
  omega

theorem read?_congr (h : SamePlace a b) : m.read? a = m.read? b := by
  rw [read?, read?, h]

theorem readMany?_congr (h : SamePlace a b) (count : Nat) :
    m.readMany? a count = m.readMany? b count := by
  induction count generalizing a b with
  | zero => rfl
  | succ count ih => rw [readMany?, readMany?, read?_congr h, ih (h.add 1)]

theorem write?_congr (h : SamePlace a b) (byte : UInt8) : m.write? a byte = m.write? b byte := by
  have h : a.toNat % size = b.toNat % size := h
  simp only [write?, h]

theorem writeMany?_congr (h : SamePlace a b) (bytes : List UInt8) :
    m.writeMany? a bytes = m.writeMany? b bytes := by
  induction bytes generalizing m a b with
  | nil => rfl
  | cons byte later ih =>
    simp only [writeMany?, write?_congr h]
    cases m.write? b byte with
    | none => rfl
    | some m₁ => exact ih (h.add 1)

end

/-! ## Reading and writing -/

/-- So many bytes are read as were asked for. -/
theorem length_readMany? {m : Memory} {address : UInt16} {count : Nat} {bytes : List UInt8}
    (h : m.readMany? address count = some bytes) : bytes.length = count := by
  induction count generalizing address bytes with
  | zero =>
    cases h
    rfl
  | succ count ih =>
    simp only [readMany?, Option.bind_eq_bind, Option.bind_eq_some_iff] at h
    obtain ⟨byte, -, later, hlater, h⟩ := h
    cases h
    rw [List.length_cons, ih hlater]

variable {m : Memory} (full : size ≤ m.bytes.size)
include full

theorem exists_read? (address : UInt16) : ∃ byte, m.read? address = some byte := by
  have h : address.toNat % size < m.bytes.size :=
    Nat.lt_of_lt_of_le (Nat.mod_lt _ (by decide)) full
  exact ⟨_, Array.getElem?_eq_getElem h⟩

theorem exists_readMany? (address : UInt16) (count : Nat) :
    ∃ bytes, m.readMany? address count = some bytes ∧ bytes.length = count := by
  have hread : ∃ bytes, m.readMany? address count = some bytes := by
    induction count generalizing address with
    | zero => exact ⟨[], rfl⟩
    | succ count ih =>
      obtain ⟨byte, hbyte⟩ := exists_read? full address
      obtain ⟨later, hlater⟩ := ih (address + 1)
      exact ⟨byte :: later, by simp [readMany?, hbyte, hlater]⟩
  obtain ⟨bytes, hbytes⟩ := hread
  exact ⟨bytes, hbytes, length_readMany? hbytes⟩

theorem exists_word? (address : UInt16) : ∃ word, m.word? address = some word := by
  obtain ⟨high, hhigh⟩ := exists_read? full address
  obtain ⟨low, hlow⟩ := exists_read? full (address + 1)
  exact ⟨_, by simp [word?, hhigh, hlow]; rfl⟩

theorem exists_write? (address : UInt16) (byte : UInt8) :
    ∃ m', m.write? address byte = some m' := by
  have h : address.toNat % size < m.bytes.size :=
    Nat.lt_of_lt_of_le (Nat.mod_lt _ (by decide)) full
  simp only [write?, h, ↓reduceDIte]
  split <;> exact ⟨_, rfl⟩

theorem exists_writeMany? (address : UInt16) (bytes : List UInt8) :
    ∃ m', m.writeMany? address bytes = some m' := by
  induction bytes generalizing m address with
  | nil => exact ⟨m, rfl⟩
  | cons byte later ih =>
    obtain ⟨m₁, h₁⟩ := exists_write? full address byte
    obtain ⟨m', h'⟩ := ih (m := m₁) (by rw [size_write? h₁]; exact full) (address + 1)
    exact ⟨m', by simp [writeMany?, h₁, h']⟩

end Chip8.Memory
