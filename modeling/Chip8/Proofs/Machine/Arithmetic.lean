import Chip8.Proofs.Machine.Frame
import Chip8.Proofs.Machine.Sprite

/-!
# Arithmetic with a flag

Sums, differences and shifts leave a flag in VF, and a sprite leaves its collision there.  VF is a
register like any other, so VX or VY may be VF too.  All of them read VX and VY before they set
anything, and set VF last:

    operation.SetsFlag → (m.combine operation x y).registers.get r =
      the flag where r is VF, the number modulo 256 where r is VX, else m.registers.get r
                                                                          (exists_get_combine)

In numbers, the flag of a sum is its carry and that of a shift the bit that is lost; the flag of a
difference says that it is above zero.
-/

namespace Chip8

namespace Operation

/-- The number that an operation makes of VX and VY.  VX receives it modulo 256. -/
def number (x y : Nat) : Operation → Int
  | copy => y
  | or => (x ||| y : Nat)
  | and => (x &&& y : Nat)
  | xor => (x ^^^ y : Nat)
  | add => x + y
  | subtract => x - y
  | shiftRight => (x / 2 : Nat)
  | subtractFrom => y - x
  | shiftLeft => 2 * x

/-- When an operation on VX and VY sets its flag. -/
def Flags (x y : Nat) : Operation → Prop
  | copy | or | and | xor => False
  | add => 255 < x + y
  | subtract => y < x
  | shiftRight => x % 2 = 1
  | subtractFrom => x < y
  | shiftLeft => 128 ≤ x

instance decidableFlags (x y : Nat) : (operation : Operation) → Decidable (operation.Flags x y)
  | copy | or | and | xor => inferInstanceAs (Decidable False)
  | add => inferInstanceAs (Decidable (255 < x + y))
  | subtract => inferInstanceAs (Decidable (y < x))
  | shiftRight => inferInstanceAs (Decidable (x % 2 = 1))
  | subtractFrom => inferInstanceAs (Decidable (x < y))
  | shiftLeft => inferInstanceAs (Decidable (128 ≤ x))

theorem toNat_apply (x y : UInt8) (operation : Operation) :
    ((operation.apply x y).1.toNat : Int) = operation.number x.toNat y.toNat % 256 := by
  have hx := x.toNat_lt
  have hy := y.toNat_lt
  cases operation
  case copy =>
    show (y.toNat : Int) = y.toNat % 256
    omega
  case or =>
    have small := (x ||| y).toNat_lt
    show ((x ||| y).toNat : Int) = (x.toNat ||| y.toNat : Nat) % 256
    rw [← UInt8.toNat_or]
    omega
  case and =>
    have small := (x &&& y).toNat_lt
    show ((x &&& y).toNat : Int) = (x.toNat &&& y.toNat : Nat) % 256
    rw [← UInt8.toNat_and]
    omega
  case xor =>
    have small := (x ^^^ y).toNat_lt
    show ((x ^^^ y).toNat : Int) = (x.toNat ^^^ y.toNat : Nat) % 256
    rw [← UInt8.toNat_xor]
    omega
  case add =>
    show ((x + y).toNat : Int) = (x.toNat + y.toNat : Int) % 256
    rw [UInt8.toNat_add]
    omega
  case subtract =>
    show ((x - y).toNat : Int) = (x.toNat - y.toNat : Int) % 256
    rw [UInt8.toNat_sub]
    omega
  case shiftRight =>
    show ((x >>> 1).toNat : Int) = (x.toNat / 2 : Nat) % 256
    have half : (x >>> 1).toNat = x.toNat / 2 := by
      rw [UInt8.toNat_shiftRight]
      exact Nat.shiftRight_eq_div_pow _ 1
    rw [half]
    omega
  case subtractFrom =>
    show ((y - x).toNat : Int) = (y.toNat - x.toNat : Int) % 256
    rw [UInt8.toNat_sub]
    omega
  case shiftLeft =>
    show ((x <<< 1).toNat : Int) = (2 * x.toNat : Int) % 256
    have double : (x <<< 1).toNat = 2 * x.toNat % 256 := by
      rw [UInt8.toNat_shiftLeft]
      show x.toNat <<< 1 % 256 = 2 * x.toNat % 256
      rw [Nat.shiftLeft_eq]
      omega
    rw [double]
    omega

theorem apply_flag {operation : Operation} (h : operation.SetsFlag) (x y : UInt8) :
    (operation.apply x y).2 = some (decide (operation.Flags x.toNat y.toNat)) := by
  cases operation
  case copy | or | and | xor => cases h
  case add => rfl
  case subtract =>
    show some (decide (y < x)) = some (decide (y.toNat < x.toNat))
    simp only [UInt8.lt_iff_toNat_lt]
  case shiftRight =>
    have odd : x % 2 = 1 ↔ x.toNat % 2 = 1 := by
      rw [← UInt8.toNat_inj, UInt8.toNat_mod]
      rfl
    show some (x % 2 == 1) = some (decide (x.toNat % 2 = 1))
    simp only [← odd]
    rfl
  case subtractFrom =>
    show some (decide (x < y)) = some (decide (x.toNat < y.toNat))
    simp only [UInt8.lt_iff_toNat_lt]
  case shiftLeft =>
    show some (decide (128 ≤ x)) = some (decide (128 ≤ x.toNat))
    simp only [UInt8.le_iff_toNat_le]
    rfl

end Operation

theorem toNat_bit (b : Bool) : (bit b).toNat = if b then 1 else 0 := by
  cases b <;> rfl

namespace Machine

/-! ## Which value comes last -/

/-- The flag is set after the number, so it stays also where VX is VF. -/
theorem exists_get_combine (m : Machine) {operation : Operation} (h : operation.SetsFlag)
    (x y : Register) :
    let vx := (m.registers.get x).toNat
    let vy := (m.registers.get y).toNat
    ∃ value flag : UInt8, (value.toNat : Int) = operation.number vx vy % 256 ∧
      flag.toNat = (if operation.Flags vx vy then 1 else 0) ∧
      ∀ r, (m.combine operation x y).registers.get r =
        if r = Register.flag then flag else if r = x then value else m.registers.get r := by
  intro vx vy
  have hnumber := Operation.toNat_apply (m.registers.get x) (m.registers.get y) operation
  have hflag := Operation.apply_flag h (m.registers.get x) (m.registers.get y)
  rcases happly : operation.apply (m.registers.get x) (m.registers.get y) with ⟨value, flag?⟩
  rw [happly] at hnumber hflag
  obtain rfl : flag? = _ := hflag
  refine ⟨value, bit (decide (operation.Flags vx vy)), hnumber, ?_, fun r => ?_⟩
  · rw [toNat_bit]
    simp only [decide_eq_true_eq]
  · have hcombine : m.combine operation x y =
        (m.setRegister x value).setRegister .flag (bit (decide (operation.Flags vx vy))) := by
      rw [combine, happly]
    rw [hcombine]
    show ((m.registers.put x value).put Register.flag _).get r = _
    rw [Cells.get_put, Cells.get_put]
    simp only [eq_comm]

theorem exists_cycle_combine {m : Machine} {operation : Operation} {x y : Register}
    (fetched : m.Fetches (.combine operation x y)) :
    ∃ m', m.cycle = some (.ok .executed, m') ∧
      m'.registers = (m.combine operation x y).registers := by
  obtain ⟨opcode, hcycle⟩ := cycle_of_next? (fetches_iff.1 fetched)
  refine ⟨(({ m with opcode } : Machine).combine operation x y).advance, hcycle, ?_⟩
  -- the record of the word has no part in the registers
  cases operation <;> rfl

/-- Where a sprite is drawn is told by the registers before the collision goes to VF. -/
theorem exists_cycle_draw {m : Machine} {x y : Register} {rows : Fin 16}
    (fetched : m.Fetches (.draw x y rows)) (full : Memory.size ≤ m.memory.bytes.size)
    (whole : m.screen.Whole) :
    ∃ m' sprite collision, m.cycle = some (.ok .executed, m') ∧
      m.memory.readMany? m.index rows = some sprite ∧
      m.screen.draw (m.registers.get x) (m.registers.get y) sprite = some (collision, m'.screen) ∧
      m'.registers = m.registers.put Register.flag (bit collision) := by
  obtain ⟨opcode, hcycle⟩ := cycle_of_next? (fetches_iff.1 fetched)
  obtain ⟨sprite, hsprite, -⟩ := Memory.exists_readMany? full m.index rows.val
  obtain ⟨collision, screen, hdraw⟩ :=
    whole.exists_draw (m.registers.get x) (m.registers.get y) sprite
  let drawn := ({ m with opcode, screen, stale := true } : Machine).setRegister Register.flag
    (bit collision)
  have hdrawn : ({ m with opcode } : Machine).draw? x y rows = some drawn :=
    draw?_eq_some_iff.2 ⟨sprite, collision, screen, hsprite, hdraw, rfl⟩
  have hexecute : ({ m with opcode } : Machine).execute (.draw x y rows) =
      some (.ok .executed, drawn.advance) := by
    rw [execute, hdrawn]
    rfl
  exact ⟨drawn.advance, sprite, collision, hcycle.trans hexecute, hsprite, hdraw, rfl⟩

/-! ## Main statement -/

/-- Whatever registers X and Y are, VF included and one register for both, a sum, a difference or a
shift is computed from the values before it.  VF then holds the flag, VX the number modulo 256 unless
it is VF, and every other register what it held.  In the same way a sprite lands where VX and VY
pointed before VF received the collision. -/
theorem exists_flagged (m : Machine) (x y : Register) :
    let vx := (m.registers.get x).toNat
    let vy := (m.registers.get y).toNat
    (∀ operation : Operation, operation.SetsFlag → m.Fetches (.combine operation x y) →
      ∃ m', m.cycle = some (.ok .executed, m') ∧
        (m'.registers.get Register.flag).toNat = (if operation.Flags vx vy then 1 else 0) ∧
        (x ≠ Register.flag →
          ((m'.registers.get x).toNat : Int) = operation.number vx vy % 256) ∧
        ∀ r, r ≠ x → r ≠ Register.flag → m'.registers.get r = m.registers.get r) ∧
    ∀ rows : Fin 16, m.Fetches (.draw x y rows) → Memory.size ≤ m.memory.bytes.size →
      m.screen.Whole →
      ∃ m' sprite, m.cycle = some (.ok .executed, m') ∧
        m.memory.readMany? m.index rows = some sprite ∧
        (∀ px py, px < m.screen.width.toNat → py < m.screen.height.toNat →
          m'.screen.pixel? px py =
            (m.screen.pixel? px py).map ((m.screen.landings vx vy sprite px py).repeat not)) ∧
        (m'.registers.get Register.flag).toNat =
          (if m'.screen.lit.length < m.screen.lit.length + Screen.setBits sprite then 1 else 0) ∧
        ∀ r, r ≠ Register.flag → m'.registers.get r = m.registers.get r := by
  intro vx vy
  constructor
  · intro operation flagged fetched
    obtain ⟨m', hcycle, hregisters⟩ := exists_cycle_combine fetched
    obtain ⟨value, flag, hvalue, hflag, hget⟩ := exists_get_combine m flagged x y
    refine ⟨m', hcycle, ?_, fun other => ?_, fun r notX notFlag => ?_⟩
    · rw [hregisters, hget, if_pos rfl, hflag]
    · rw [hregisters, hget, if_neg other, if_pos rfl, hvalue]
    · rw [hregisters, hget, if_neg notFlag, if_neg notX]
  · intro rows fetched full whole
    obtain ⟨m', sprite, collision, hcycle, hsprite, hdraw, hregisters⟩ :=
      exists_cycle_draw fetched full whole
    refine ⟨m', sprite, hcycle, hsprite, fun px py hpx hpy => ?_, ?_, fun r notFlag => ?_⟩
    · exact Screen.pixel?_draw whole hdraw hpx hpy
    · rw [hregisters, Cells.get_put, if_pos rfl, toNat_bit]
      simp only [Screen.collision_draw hdraw]
    · rw [hregisters, Cells.get_put, if_neg (Ne.symm notFlag)]

/-- With 200 in every register, 8FF4 doubles VF and leaves the carry in it, and DFF1 draws the upper
row of the first glyph at column 200 and row 200. -/
theorem exists_flagged_twice :
    let program : List UInt8 := [0x8F, 0xF4, 0xDF, 0xF1]
    ∃ memory, Memory.blank.load program = some (.ok memory) ∧
      let m : Machine :=
        { fresh ⟨false, false⟩ (.ofSeed 3) with memory, registers := Vector.replicate 16 200 }
      let n : Machine := { m with counter := 0x202, index := 0x50 }
      Operation.add.SetsFlag ∧ m.Fetches (.combine .add Register.flag Register.flag) ∧
      (∃ m', m.cycle = some (.ok .executed, m') ∧
        (m'.registers.get Register.flag).toNat = 1 ∧
        ∀ r, r ≠ Register.flag → m'.registers.get r = m.registers.get r) ∧
      n.Fetches (.draw Register.flag Register.flag (lastDigit 1)) ∧
      Memory.size ≤ n.memory.bytes.size ∧ n.screen.Whole ∧
      ∃ n' sprite, n.cycle = some (.ok .executed, n') ∧
        n.memory.readMany? n.index 1 = some sprite ∧ n'.screen.pixel? 8 8 =
          (n.screen.pixel? 8 8).map ((n.screen.landings 200 200 sprite 8 8).repeat not) := by
  intro program
  obtain ⟨memory, hload, size⟩ := Memory.exists_load_blank (by decide : program.length ≤ _)
  have full : Memory.size ≤ memory.bytes.size := Nat.le_of_eq size.symm
  refine ⟨memory, hload, ?_⟩
  intro m n
  have whole : n.screen.Whole := (wellFormed_fresh ⟨false, false⟩ (.ofSeed 3)).whole
  have sum : m.Fetches (.combine .add Register.flag Register.flag) :=
    ⟨trivial, 0x8FF4, Memory.word?_load hload, by decide⟩
  have sprite : n.Fetches (.draw Register.flag Register.flag (lastDigit 1)) :=
    ⟨trivial, 0xDFF1, Memory.word?_load_at hload (rfl : program[2]? = some 0xDF) rfl, by decide⟩
  obtain ⟨m', hm', carry, -, kept⟩ :=
    (exists_flagged m Register.flag Register.flag).1 .add trivial sum
  obtain ⟨n', rows, hn', hrows, pixels, -⟩ :=
    (exists_flagged n Register.flag Register.flag).2 (lastDigit 1) sprite full whole
  refine ⟨trivial, sum, ⟨m', hm', carry, fun r other => kept r other other⟩, sprite, full, whole,
    n', rows, hn', hrows, pixels 8 8 ?_ ?_⟩
  · show 8 < (64 : UInt64).toNat
    decide
  · show 8 < (32 : UInt64).toNat
    decide

end Machine

end Chip8
