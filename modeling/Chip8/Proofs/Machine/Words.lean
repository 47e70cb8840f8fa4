import Chip8.Proofs.Machine.WellFormed

/-!
# Words and instructions

Each instruction has its word, and each word of the instruction set one instruction.  `code` writes
the digits of an instruction down, and decoding is what undoes that:

    decode word = some i ↔ i.Spelled ∧ i.code = word.toNat                  (decode_eq_some_iff)

So the next instruction is the one that the word at the counter spells (`fetches_iff`).
-/

namespace Chip8

/-! ## From instructions to words -/

/-- The low digit of the words of an operation. -/
def Operation.digit : Operation → Nat
  | copy => 0x0
  | or => 0x1
  | and => 0x2
  | xor => 0x3
  | add => 0x4
  | subtract => 0x5
  | shiftRight => 0x6
  | subtractFrom => 0x7
  | shiftLeft => 0xE

theorem Operation.digit_of_ofDigit? {n : Nat} {operation : Operation}
    (h : ofDigit? n = some operation) : operation.digit = n := by
  unfold ofDigit? at h
  split at h <;> cases h <;> rfl

/-- The word that a condition is tested by: VX and VY in the middle, the byte at the end. -/
def Condition.code : Condition → Nat
  | equalsByte x value => 0x3000 + 0x100 * x.val + value.toNat
  | differsByte x value => 0x4000 + 0x100 * x.val + value.toNat
  | equalsRegister x y => 0x5000 + 0x100 * x.val + 0x10 * y.val
  | differsRegister x y => 0x9000 + 0x100 * x.val + 0x10 * y.val
  | keyHeld x => 0xE09E + 0x100 * x.val
  | keyReleased x => 0xE0A1 + 0x100 * x.val

namespace Instruction

/-- The word of an instruction. -/
def code : Instruction → Nat
  | routine target => target.toNat
  | clear => 0x00E0
  | ret => 0x00EE
  | jump target => 0x1000 + target.toNat
  | call target => 0x2000 + target.toNat
  | skipIf condition => condition.code
  | set x value => 0x6000 + 0x100 * x.val + value.toNat
  | increase x value => 0x7000 + 0x100 * x.val + value.toNat
  | combine operation x y => 0x8000 + 0x100 * x.val + 0x10 * y.val + operation.digit
  | setIndex address => 0xA000 + address.toNat
  | jumpPast base => 0xB000 + base.toNat
  | random x mask => 0xC000 + 0x100 * x.val + mask.toNat
  | draw x y rows => 0xD000 + 0x100 * x.val + 0x10 * y.val + rows.val
  | readDelay x => 0xF007 + 0x100 * x.val
  | awaitKey x => 0xF00A + 0x100 * x.val
  | setDelay x => 0xF015 + 0x100 * x.val
  | setSound x => 0xF018 + 0x100 * x.val
  | advanceIndex x => 0xF01E + 0x100 * x.val
  | pointAtGlyph x => 0xF029 + 0x100 * x.val
  | storeDigits x => 0xF033 + 0x100 * x.val
  | storeRegisters x => 0xF055 + 0x100 * x.val
  | loadRegisters x => 0xF065 + 0x100 * x.val

theorem code_of_ofSelector? {x : Register} {nn : Nat} {i : Instruction}
    (h : ofSelector? x nn = some i) : i.code = 0xF000 + 0x100 * x.val + nn := by
  unfold ofSelector? at h
  split at h <;> cases h <;> simp only [code] <;> omega

/-- Decoding loses no digit of a word. -/
theorem code_of_decode {word : UInt16} {i : Instruction} (h : decode word = some i) :
    i.code = word.toNat := by
  have hword := word.toNat_lt
  have nnn : (word % 0x1000).toNat = word.toNat % 0x1000 := UInt16.toNat_mod word 0x1000
  have nn : word.toUInt8.toNat = word.toNat % 0x100 := UInt16.toNat_toUInt8 word
  have x : (lastDigit (word.toNat / 0x100)).val = word.toNat / 0x100 % 16 := rfl
  have y : (lastDigit (word.toNat / 0x10)).val = word.toNat / 0x10 % 16 := rfl
  have n : (lastDigit word.toNat).val = word.toNat % 16 := rfl
  unfold decode at h
  simp only at h
  split at h
  case h_1 family =>
    cases h
    split
    · next clear => rw [clear]; rfl
    · split
      · next ret => rw [ret]; rfl
      · simp only [code, nnn]
        omega
  case h_6 family | h_10 family =>
    split at h
    · next zero =>
      cases h
      simp only [code, Condition.code, x, y]
      rw [n] at zero
      omega
    · cases h
  case h_9 family =>
    obtain ⟨operation, hoperation, rfl⟩ := Option.map_eq_some_iff.1 h
    simp only [code, Operation.digit_of_ofDigit? hoperation, x, y, n]
    omega
  case h_15 family =>
    split at h
    · next held =>
      cases h
      simp only [code, Condition.code, x]
      have : word.toNat % 0x100 = 0x9E := nn.symm.trans (congrArg UInt8.toNat held)
      omega
    · split at h
      · next released =>
        cases h
        simp only [code, Condition.code, x]
        have : word.toNat % 0x100 = 0xA1 := nn.symm.trans (congrArg UInt8.toNat released)
        omega
      · cases h
  case h_16 =>
    have family : word.toNat / 0x1000 = 0xF := by grind
    rw [code_of_ofSelector? h, x, nn]
    omega
  all_goals
    next family =>
    cases h
    simp only [code, Condition.code, nnn, nn, x, y, n]
    omega

end Instruction

/-! ## From words to instructions -/

theorem Operation.ofDigit?_digit (operation : Operation) :
    ofDigit? operation.digit = some operation := by
  cases operation <;> rfl

namespace Instruction

/-- An instruction that a word spells: addresses have three digits, and the two words of family 0
with a meaning of their own are no routines. -/
def Spelled : Instruction → Prop
  | routine target => target < 0x1000 ∧ target ≠ 0x00E0 ∧ target ≠ 0x00EE
  | i => i.Inside

section
variable {word : UInt16}

/-- The digits of a word that ends in an address. -/
theorem digits_nnn (family : Nat) {address : UInt16} (inside : address < 0x1000)
    (h : 0x1000 * family + address.toNat = word.toNat) :
    word.toNat / 0x1000 = family ∧ word % 0x1000 = address := by
  have inside : address.toNat < 0x1000 := UInt16.lt_iff_toNat_lt.1 inside
  refine ⟨by omega, UInt16.toNat_inj.1 ?_⟩
  rw [UInt16.toNat_mod]
  show word.toNat % 0x1000 = address.toNat
  omega

/-- The digits of a word that ends in a register and a byte. -/
theorem digits_xnn (family : Nat) {x : Register} (value : UInt8)
    (h : 0x1000 * family + 0x100 * x.val + value.toNat = word.toNat) :
    word.toNat / 0x1000 = family ∧ lastDigit (word.toNat / 0x100) = x ∧ word.toUInt8 = value := by
  have hx := x.isLt
  have hvalue := value.toNat_lt
  refine ⟨by omega, Fin.ext ?_, UInt8.toNat_inj.1 ?_⟩
  · show word.toNat / 0x100 % 16 = x.val
    omega
  · rw [UInt16.toNat_toUInt8]
    omega

/-- The digits of a word that ends in two registers and a digit. -/
theorem digits_xyn (family : Nat) {x y : Register} {n : Nat} (hn : n < 16)
    (h : 0x1000 * family + 0x100 * x.val + 0x10 * y.val + n = word.toNat) :
    word.toNat / 0x1000 = family ∧ lastDigit (word.toNat / 0x100) = x ∧
      lastDigit (word.toNat / 0x10) = y ∧ (lastDigit word.toNat).val = n := by
  have hx := x.isLt
  have hy := y.isLt
  refine ⟨by omega, Fin.ext ?_, Fin.ext ?_, ?_⟩
  · show word.toNat / 0x100 % 16 = x.val
    omega
  · show word.toNat / 0x10 % 16 = y.val
    omega
  · show word.toNat % 16 = n
    omega

theorem decode_of_ofSelector? {x : Register} (selector : UInt8) {i : Instruction}
    (hi : ofSelector? x selector.toNat = some i) (h : i.code = word.toNat) :
    decode word = some i := by
  rw [code_of_ofSelector? hi] at h
  obtain ⟨family, hx, nn⟩ := digits_xnn 0xF selector h
  simp [decode, family, hx, nn, hi]

/-- One case for each instruction: the digits of its word are those that decoding looks at. -/
theorem decode_of_code {i : Instruction} (spelled : i.Spelled) (h : i.code = word.toNat) :
    decode word = some i := by
  cases i
  case routine target =>
    obtain ⟨inside, clear, ret⟩ := spelled
    obtain rfl : target = word := UInt16.toNat_inj.1 h
    have h : 0x1000 * 0 + target.toNat = target.toNat := by omega
    obtain ⟨family, nnn⟩ := digits_nnn 0x0 inside h
    simp [decode, family, nnn, clear, ret]
  case clear =>
    obtain rfl : 0x00E0 = word := UInt16.toNat_inj.1 h
    rfl
  case ret =>
    obtain rfl : 0x00EE = word := UInt16.toNat_inj.1 h
    rfl
  case jump target =>
    obtain ⟨family, nnn⟩ := digits_nnn 0x1 spelled h
    simp [decode, family, nnn]
  case call target =>
    obtain ⟨family, nnn⟩ := digits_nnn 0x2 spelled h
    simp [decode, family, nnn]
  case setIndex target =>
    obtain ⟨family, nnn⟩ := digits_nnn 0xA spelled h
    simp [decode, family, nnn]
  case jumpPast target =>
    obtain ⟨family, nnn⟩ := digits_nnn 0xB spelled h
    simp [decode, family, nnn]
  case set x value =>
    obtain ⟨family, hx, nn⟩ := digits_xnn 0x6 value h
    simp [decode, family, hx, nn]
  case increase x value =>
    obtain ⟨family, hx, nn⟩ := digits_xnn 0x7 value h
    simp [decode, family, hx, nn]
  case random x mask =>
    obtain ⟨family, hx, nn⟩ := digits_xnn 0xC mask h
    simp [decode, family, hx, nn]
  case combine operation x y =>
    have hn : operation.digit < 16 := by cases operation <;> decide
    obtain ⟨family, hx, hy, n⟩ := digits_xyn 0x8 hn h
    simp [decode, family, hx, hy, n, Operation.ofDigit?_digit]
  case draw x y rows =>
    obtain ⟨family, hx, hy, n⟩ := digits_xyn 0xD rows.isLt h
    simp [decode, family, hx, hy, Fin.ext n]
  case skipIf condition =>
    cases condition
    case equalsByte x value =>
      obtain ⟨family, hx, nn⟩ := digits_xnn 0x3 value h
      simp [decode, family, hx, nn]
    case differsByte x value =>
      obtain ⟨family, hx, nn⟩ := digits_xnn 0x4 value h
      simp [decode, family, hx, nn]
    case equalsRegister x y =>
      obtain ⟨family, hx, hy, n⟩ := digits_xyn 0x5 (by decide : 0 < 16) h
      simp [decode, family, hx, hy, n]
    case differsRegister x y =>
      obtain ⟨family, hx, hy, n⟩ := digits_xyn 0x9 (by decide : 0 < 16) h
      simp [decode, family, hx, hy, n]
    case keyHeld x =>
      have h : 0x1000 * 0xE + 0x100 * x.val + (0x9E : UInt8).toNat = word.toNat := by
        rw [← h]
        show 0x1000 * 0xE + 0x100 * x.val + 0x9E = 0xE09E + 0x100 * x.val
        omega
      obtain ⟨family, hx, nn⟩ := digits_xnn 0xE 0x9E h
      simp [decode, family, hx, nn]
    case keyReleased x =>
      have h : 0x1000 * 0xE + 0x100 * x.val + (0xA1 : UInt8).toNat = word.toNat := by
        rw [← h]
        show 0x1000 * 0xE + 0x100 * x.val + 0xA1 = 0xE0A1 + 0x100 * x.val
        omega
      obtain ⟨family, hx, nn⟩ := digits_xnn 0xE 0xA1 h
      simp [decode, family, hx, nn]
  case readDelay x => exact decode_of_ofSelector? 0x07 rfl h
  case awaitKey x => exact decode_of_ofSelector? 0x0A rfl h
  case setDelay x => exact decode_of_ofSelector? 0x15 rfl h
  case setSound x => exact decode_of_ofSelector? 0x18 rfl h
  case advanceIndex x => exact decode_of_ofSelector? 0x1E rfl h
  case pointAtGlyph x => exact decode_of_ofSelector? 0x29 rfl h
  case storeDigits x => exact decode_of_ofSelector? 0x33 rfl h
  case storeRegisters x => exact decode_of_ofSelector? 0x55 rfl h
  case loadRegisters x => exact decode_of_ofSelector? 0x65 rfl h

theorem spelled_of_decode {i : Instruction} (h : decode word = some i) : i.Spelled := by
  have inside := inside_decode h
  cases i
  case routine target =>
    obtain rfl : target = word := UInt16.toNat_inj.1 (code_of_decode h)
    refine ⟨inside, ?_, ?_⟩
    · rintro rfl
      cases h
    · rintro rfl
      cases h
  all_goals exact inside

/-- Decoding and spelling undo each other. -/
theorem decode_eq_some_iff {i : Instruction} :
    decode word = some i ↔ i.Spelled ∧ i.code = word.toNat :=
  ⟨fun h => ⟨spelled_of_decode h, code_of_decode h⟩, fun ⟨spelled, h⟩ => decode_of_code spelled h⟩

end

end Instruction

namespace Machine

/-- The word at the counter spells the instruction. -/
def Fetches (m : Machine) (i : Instruction) : Prop :=
  i.Spelled ∧ ∃ word, m.memory.word? m.counter = some word ∧ i.code = word.toNat

theorem fetches_iff {m : Machine} {i : Instruction} : m.Fetches i ↔ m.next? = some i := by
  rw [next?, Option.bind_eq_some_iff]
  constructor
  · rintro ⟨spelled, word, hword, hcode⟩
    exact ⟨word, hword, Instruction.decode_of_code spelled hcode⟩
  · rintro ⟨word, hword, hi⟩
    obtain ⟨spelled, hcode⟩ := Instruction.decode_eq_some_iff.1 hi
    exact ⟨spelled, word, hword, hcode⟩

end Machine

end Chip8
