import Chip8.Proofs.Machine.Sturdy

/-!
# Well-formed machines

`WellFormed` is what holds of every machine that was not read from a file: memory of 4096 bytes, all
addresses below 0x1000, at most sixteen return addresses, and a screen of the size that the mode
asks for.  A cycle keeps it.

On a well-formed machine the fixed-width sums and differences of an instruction do not wrap, apart
from those that are meant to: `Exact` lists them, each with what it comes to in the integers.

    m.WellFormed → ∃ outcome m', m.cycle = some (outcome, m') ∧ m'.WellFormed
                                                                          (WellFormed.exists_cycle)
    m.WellFormed → m.next? = some i → m.Exact i                           (WellFormed.exact)
-/

namespace Chip8

namespace Screen

/-- Where a sprite puts a point, computed in 64 bits: both sums and the place come out as they
should. -/
structure ExactAt (s : Screen) (x y : UInt8) (column row : UInt64) : Prop where
  across : (x.toUInt64 % s.width + column).toNat = x.toNat % s.width.toNat + column.toNat
  down : (y.toUInt64 % s.height + row).toNat = y.toNat % s.height.toNat + row.toNat
  place : ((y.toUInt64 % s.height + row) % s.height * s.width
      + (x.toUInt64 % s.width + column) % s.width).toNat
    = s.place (x.toNat + column.toNat) (y.toNat + row.toNat)

theorem exactAt {s : Screen} (hs : s.width.toNat * s.height.toNat ≤ 0x1000) (hwhole : s.Whole)
    (x y : UInt8) {column row : UInt64} (hcolumn : column.toNat < 8) (hrow : row.toNat < 16) :
    s.ExactAt x y column row := by
  have hx := x.toNat_lt
  have hy := y.toNat_lt
  have hxmod : x.toNat % s.width.toNat ≤ x.toNat := Nat.mod_le _ _
  have hymod : y.toNat % s.height.toNat ≤ y.toNat := Nat.mod_le _ _
  have across :
      (x.toUInt64 % s.width + column).toNat = x.toNat % s.width.toNat + column.toNat := by
    rw [UInt64.toNat_add, UInt64.toNat_mod, UInt8.toNat_toUInt64, Nat.mod_eq_of_lt]
    omega
  have down : (y.toUInt64 % s.height + row).toNat = y.toNat % s.height.toNat + row.toNat := by
    rw [UInt64.toNat_add, UInt64.toNat_mod, UInt8.toNat_toUInt64, Nat.mod_eq_of_lt]
    omega
  have inside := hwhole.place_lt (x.toNat + column.toNat) (y.toNat + row.toNat)
  rw [hwhole.pixels] at inside
  refine ⟨across, down, ?_⟩
  unfold place at inside ⊢
  rw [UInt64.toNat_add, UInt64.toNat_mul, UInt64.toNat_mod, UInt64.toNat_mod, across, down,
    Nat.mod_add_mod, Nat.mod_add_mod, Nat.mod_add_mod, Nat.mod_eq_of_lt]
  omega

end Screen

namespace Machine

structure WellFormed (m : Machine) : Prop extends m.Usable where
  counter : m.counter < 0x1000
  stack : ∀ place, m.stack.get place < 0x1000

namespace WellFormed

variable {m : Machine}

theorem confined (hm : m.WellFormed) : m.Confined := ⟨hm.counter, hm.stack⟩

theorem cycle (hm : m.WellFormed) {m' : Machine} {outcome : Except Fault Progress}
    (h : m.cycle = some (outcome, m')) : m'.WellFormed :=
  { hm.toUsable.cycle h, hm.confined.cycle h with }

theorem exists_cycle (hm : m.WellFormed) :
    ∃ outcome m', m.cycle = some (outcome, m') ∧ m'.WellFormed := by
  obtain ⟨outcome, m', h, -⟩ := hm.toUsable.exists_cycle
  exact ⟨outcome, m', h, hm.cycle h⟩

end WellFormed

theorem wellFormed_fresh (mode : Mode) (random : Random) : (fresh mode random).WellFormed where
  memory := Memory.size_blank
  counter := (by decide : (0x200 : UInt16) < 0x1000)
  stack := fun place => by
    show (Vector.replicate 16 (0 : UInt16))[place.val] < 0x1000
    rw [Vector.getElem_replicate]
    decide
  depth := Nat.zero_le _
  width := rfl
  height := by
    show UInt64.ofNat (if mode.hiRes then 64 else 32) = if mode.hiRes then 64 else 32
    split <;> rfl
  pixels := by
    show (Array.replicate _ false).size = _
    rw [Array.size_replicate]
    show 64 * (if mode.hiRes then 64 else 32)
      = 64 * (UInt64.ofNat (if mode.hiRes then 64 else 32)).toNat
    split <;> rfl

/-! ## Fixed-width arithmetic -/

/-- The instruction that the counter points at. -/
def next? (m : Machine) : Option Instruction :=
  (m.memory.word? m.counter).bind Instruction.decode

/-- The sums and differences of an instruction that are not meant to wrap do not.  Those that are
(the counter at the end of memory, the values of families 7 and 8, the index register) are not here;
nor are the places of registers, keys and stack cells, which cannot be out of range. -/
def Exact (m : Machine) : Instruction → Prop
  | .ret => m.depth ≠ 0 → (m.depth - 1).toNat + 1 = m.depth.toNat
  | .call _ => m.depth.toNat < 16 → (m.depth + 1).toNat = m.depth.toNat + 1
  | .combine .add x y =>
    ((m.registers.get x).toUInt16 + (m.registers.get y).toUInt16).toNat =
      (m.registers.get x).toNat + (m.registers.get y).toNat
  | .jumpPast base =>
    (base + (m.registers.get Register.first).toUInt16).toNat =
      base.toNat + (m.registers.get Register.first).toNat
  | .pointAtGlyph x =>
    Memory.fontStart + Memory.glyphHeight * ((m.registers.get x).toNat % 16) < UInt16.size
  | .draw x y rows => ∀ column row : UInt64, column.toNat < 8 → row.toNat < rows.val →
    m.screen.ExactAt (m.registers.get x) (m.registers.get y) column row
  | _ => True

theorem WellFormed.exact {m : Machine} (hm : m.WellFormed) {i : Instruction}
    (hi : m.next? = some i) : m.Exact i := by
  obtain ⟨opcode, -, hdecode⟩ := Option.bind_eq_some_iff.1 hi
  have inside := Instruction.inside_decode hdecode
  cases i
  case ret =>
    intro deep
    have pos : m.depth.toNat ≠ 0 := fun h => deep (UInt8.toNat_inj.1 h)
    rw [toNat_depth_sub_one deep]
    omega
  case call target =>
    intro room
    have pushed : (m.call target room).depth = m.depth + 1 := rfl
    rw [← pushed, depth_call]
  case combine operation x y =>
    cases operation
    case add =>
      have hx := (m.registers.get x).toNat_lt
      have hy := (m.registers.get y).toNat_lt
      show (_ + _ : UInt16).toNat = _
      rw [UInt16.toNat_add, UInt8.toNat_toUInt16, UInt8.toNat_toUInt16, Nat.mod_eq_of_lt]
      omega
    all_goals trivial
  case jumpPast base =>
    have hbase : base.toNat < 0x1000 := UInt16.lt_iff_toNat_lt.1 inside
    have hoffset := (m.registers.get Register.first).toNat_lt
    show (_ + _ : UInt16).toNat = _
    rw [UInt16.toNat_add, UInt8.toNat_toUInt16, Nat.mod_eq_of_lt]
    omega
  case pointAtGlyph x =>
    have hglyph : (m.registers.get x).toNat % 16 < 16 := Nat.mod_lt _ (by decide)
    show 0x50 + 5 * ((m.registers.get x).toNat % 16) < 65536
    omega
  case draw x y rows =>
    intro column row hcolumn hrow
    exact Screen.exactAt hm.screen_le hm.whole _ _ hcolumn (Nat.lt_trans hrow rows.isLt)
  all_goals trivial

end Machine

end Chip8
