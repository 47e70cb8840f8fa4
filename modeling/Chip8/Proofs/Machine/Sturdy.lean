import Chip8.Proofs.Machine.Memory
import Chip8.Proofs.Machine.Shape

/-!
# Machines that always go on

A damaged machine may find no byte, no return address or no pixel where an instruction looks for
one.  `Sturdy` names what has to be there: all of memory, a stack no deeper than its cells, and
every pixel that a sprite can reach.  A sturdy machine has an outcome for every cycle, and is sturdy
after it:

    m.Sturdy → ∃ outcome m', m.cycle = some (outcome, m') ∧ m'.Sturdy      (Sturdy.exists_cycle)

A machine is `Usable` when memory and screen have the very sizes that its mode asks for; then it is
sturdy, since a full screen has all pixels, and a cycle leaves it usable:

    m.Usable → ∃ outcome m', m.cycle = some (outcome, m') ∧ m'.Usable      (Usable.exists_cycle)
-/

namespace Chip8

namespace Screen

/-! ## Screen -/

theorem place_congr {s s' : Screen} (hwidth : s'.width = s.width) (hheight : s'.height = s.height)
    (x y : Nat) : s'.place x y = s.place x y := by
  simp only [place, hwidth, hheight]

theorem flip?_isSome_iff {s : Screen} {x y : Nat} :
    (s.flip? x y).isSome ↔ s.place x y < s.pixels.size := by
  unfold flip?
  simp only
  split <;> simp_all

/-- Points are flipped as long as there is a pixel for each of them. -/
theorem flipAll?_isSome_iff {s : Screen} {x y : Nat} {points : List (Nat × Nat)} :
    (s.flipAll? x y points).isSome ↔
      ∀ p ∈ points, s.place (x + p.1) (y + p.2) < s.pixels.size := by
  induction points generalizing s with
  | nil => simp [flipAll?]
  | cons p later ih =>
    obtain ⟨column, row⟩ := p
    rw [List.forall_mem_cons, ← flip?_isSome_iff]
    cases hflip : s.flip? (x + column) (y + row) with
    | none => simp [flipAll?, hflip]
    | some flipped =>
      obtain ⟨hit, s₁⟩ := flipped
      obtain ⟨hpixels, hwidth, hheight⟩ := size_flip? hflip
      have rest := ih (s := s₁)
      simp only [place_congr hwidth hheight, hpixels] at rest
      rw [← rest]
      cases hlater : s₁.flipAll? x y later <;> simp [flipAll?, hflip, hlater]

/-- The points of a sprite are the set bits of its rows, the high bit leftmost. -/
theorem mem_spritePoints {rows : List UInt8} {column row : Nat} :
    (column, row) ∈ spritePoints rows ↔
      ∃ bits, rows[row]? = some bits ∧ column < 8 ∧ bits.toNat.testBit (7 - column) = true := by
  simp only [spritePoints, List.mem_flatMap, Prod.exists, List.mem_zipIdx_iff_getElem?,
    List.mem_filterMap, List.mem_range]
  constructor
  · rintro ⟨bits, y, hrow, x, hx, h⟩
    split at h
    · next set =>
      cases h
      exact ⟨bits, hrow, hx, set⟩
    · cases h
  · rintro ⟨bits, hrow, hx, set⟩
    exact ⟨bits, row, hrow, column, hx, by simp [set]⟩

/-- Columns that a sprite can reach, its left edge at 255 and eight bits wide. -/
def columnReach : Nat := 263

/-- Rows that a sprite can reach, its upper edge at 255 and fifteen bytes high. -/
def rowReach : Nat := 270

/-- There is a pixel wherever a sprite can put a point. -/
structure Drawable (s : Screen) : Prop where
  width : s.width ≠ 0
  height : s.height ≠ 0
  pixels : ∀ x y, x < columnReach → y < rowReach → s.place x y < s.pixels.size

theorem Drawable.exists_draw {s : Screen} (hs : s.Drawable) (x y : UInt8) {rows : List UInt8}
    (short : rows.length < 16) : ∃ collision s', s.draw x y rows = some (collision, s') := by
  have points : ∀ p ∈ spritePoints rows,
      s.place (x.toNat + p.1) (y.toNat + p.2) < s.pixels.size := by
    rintro ⟨column, row⟩ hp
    obtain ⟨_, hrow, hcolumn, -⟩ := mem_spritePoints.1 hp
    have hrow : row < rows.length := (List.getElem?_eq_some_iff.1 hrow).1
    have hx := x.toNat_lt
    have hy := y.toNat_lt
    exact hs.pixels _ _ (by unfold columnReach; omega) (by unfold rowReach; omega)
  obtain ⟨⟨collision, s'⟩, h⟩ := Option.isSome_iff_exists.1 (flipAll?_isSome_iff.2 points)
  exact ⟨collision, s', by simp [draw, hs.width, hs.height, h]⟩

/-- As many pixels as width and height say. -/
structure Whole (s : Screen) : Prop where
  width : s.width ≠ 0
  height : s.height ≠ 0
  pixels : s.pixels.size = s.width.toNat * s.height.toNat

theorem Whole.width_pos {s : Screen} (hs : s.Whole) : 0 < s.width.toNat :=
  Nat.pos_of_ne_zero fun h => hs.width (UInt64.toNat_inj.1 h)

theorem Whole.height_pos {s : Screen} (hs : s.Whole) : 0 < s.height.toNat :=
  Nat.pos_of_ne_zero fun h => hs.height (UInt64.toNat_inj.1 h)

theorem Whole.place_lt {s : Screen} (hs : s.Whole) (x y : Nat) : s.place x y < s.pixels.size := by
  have hx : x % s.width.toNat < s.width.toNat := Nat.mod_lt _ hs.width_pos
  have hy : y % s.height.toNat < s.height.toNat := Nat.mod_lt _ hs.height_pos
  rw [hs.pixels]
  calc s.place x y < y % s.height.toNat * s.width.toNat + s.width.toNat :=
        Nat.add_lt_add_left hx _
    _ = (y % s.height.toNat + 1) * s.width.toNat := (Nat.succ_mul _ _).symm
    _ ≤ s.height.toNat * s.width.toNat := Nat.mul_le_mul_right _ hy
    _ = s.width.toNat * s.height.toNat := Nat.mul_comm _ _

theorem Whole.drawable {s : Screen} (hs : s.Whole) : s.Drawable :=
  ⟨hs.width, hs.height, fun x y _ _ => hs.place_lt x y⟩

end Screen

namespace Machine

/-! ## Machines -/

/-- Nothing is missing that an instruction may look for. -/
structure Sturdy (m : Machine) : Prop where
  memory : Memory.size ≤ m.memory.bytes.size
  depth : m.depth.toNat ≤ 16
  screen : m.screen.Drawable

/-- Memory and screen have the sizes that the mode asks for. -/
structure Usable (m : Machine) : Prop where
  memory : m.memory.bytes.size = Memory.size
  depth : m.depth.toNat ≤ 16
  width : m.screen.width = 64
  height : m.screen.height = if m.mode.hiRes then 64 else 32
  pixels : m.screen.pixels.size = m.screen.width.toNat * m.screen.height.toNat

namespace Usable

variable {m : Machine}

theorem whole (hm : m.Usable) : m.screen.Whole where
  width := by rw [hm.width]; decide
  height := by rw [hm.height]; split <;> decide
  pixels := hm.pixels

theorem sturdy (hm : m.Usable) : m.Sturdy :=
  ⟨Nat.le_of_eq hm.memory.symm, hm.depth, hm.whole.drawable⟩

theorem screen_le (hm : m.Usable) : m.screen.width.toNat * m.screen.height.toNat ≤ 0x1000 := by
  rw [hm.width, hm.height]
  split <;> decide

end Usable

theorem Sturdy.exists_execute {m : Machine} (hm : m.Sturdy) (i : Instruction) :
    ∃ outcome m', m.execute i = some (outcome, m') := by
  cases i
  case ret =>
    simp only [execute]
    split
    · exact ⟨_, _, rfl⟩
    · next deep =>
      have hplace : (m.depth - 1).toNat < 16 := by
        have := hm.depth
        rw [toNat_depth_sub_one deep]
        omega
      have top : m.stack[(m.depth - 1).toNat]? = some (m.stack[(m.depth - 1).toNat]) :=
        Vector.getElem?_eq_getElem hplace
      exact ⟨_, _, by simp only [return?, top, Option.map_some, Option.bind_some]; rfl⟩
  case call target =>
    simp only [execute]
    split <;> exact ⟨_, _, rfl⟩
  case draw x y rows =>
    obtain ⟨sprite, hsprite, hlength⟩ := Memory.exists_readMany? hm.memory m.index rows.val
    obtain ⟨collision, screen, hdraw⟩ :=
      hm.screen.exists_draw (m.registers.get x) (m.registers.get y) (hlength ▸ rows.isLt)
    exact ⟨_, _, by
      simp only [execute, draw?_eq_some_iff.2 ⟨sprite, collision, screen, hsprite, hdraw, rfl⟩,
        Option.bind_some]
      rfl⟩
  case awaitKey x =>
    simp only [execute]
    split <;> exact ⟨_, _, rfl⟩
  case storeDigits x =>
    obtain ⟨memory, hwrite⟩ :=
      Memory.exists_writeMany? hm.memory m.index (digits (m.registers.get x))
    exact ⟨_, _, by simp only [execute, hwrite, Option.bind_eq_bind, Option.bind_some]; rfl⟩
  case storeRegisters x =>
    obtain ⟨memory, hwrite⟩ :=
      Memory.exists_writeMany? hm.memory m.index (m.registers.toList.take (x + 1))
    exact ⟨_, _, by simp only [execute, hwrite, Option.bind_eq_bind, Option.bind_some]; rfl⟩
  case loadRegisters x =>
    obtain ⟨values, hread, -⟩ := Memory.exists_readMany? hm.memory m.index (x.val + 1)
    exact ⟨_, _, by simp only [execute, hread, Option.bind_eq_bind, Option.bind_some]; rfl⟩
  all_goals exact ⟨_, _, rfl⟩

theorem SameShape.sturdy {m m' : Machine} (h : m.SameShape m') (hdepth : m'.depth.toNat ≤ 16)
    (hm : m.Sturdy) : m'.Sturdy where
  memory := h.memory ▸ hm.memory
  depth := hdepth
  screen :=
    { width := h.width ▸ hm.screen.width
      height := h.height ▸ hm.screen.height
      pixels := fun x y hx hy => by
        rw [h.pixels, Screen.place_congr h.width h.height]
        exact hm.screen.pixels x y hx hy }

/-- What keeps the shape of a usable machine only has to keep its depth. -/
theorem SameShape.usable {m m' : Machine} (h : m.SameShape m') (hdepth : m'.depth.toNat ≤ 16)
    (hm : m.Usable) : m'.Usable where
  memory := h.memory.trans hm.memory
  depth := hdepth
  width := h.width.trans hm.width
  height := by rw [h.height, h.mode, hm.height]
  pixels := by rw [h.pixels, h.width, h.height, hm.pixels]

/-- A sturdy machine executes, waits or faults, and is sturdy afterwards. -/
theorem Sturdy.exists_cycle {m : Machine} (hm : m.Sturdy) :
    ∃ outcome m', m.cycle = some (outcome, m') ∧ m'.Sturdy := by
  obtain ⟨opcode, hopcode⟩ := Memory.exists_word? hm.memory m.counter
  have hcycle : ∃ outcome m', m.cycle = some (outcome, m') := by
    cases hi : Instruction.decode opcode with
    | none =>
      exact ⟨_, _, cycle_eq_some_iff.2 ⟨opcode, hopcode, by rw [hi]; exact ⟨rfl, rfl⟩⟩⟩
    | some i =>
      have fetched : ({ m with opcode } : Machine).Sturdy := ⟨hm.memory, hm.depth, hm.screen⟩
      obtain ⟨outcome, m', h⟩ := fetched.exists_execute i
      exact ⟨outcome, m', cycle_eq_some_iff.2 ⟨opcode, hopcode, by rw [hi]; exact h⟩⟩
  obtain ⟨outcome, m', h⟩ := hcycle
  exact ⟨outcome, m', h, (sameShape_cycle h).sturdy (depth_cycle_le hm.depth h) hm⟩

theorem Usable.cycle {m m' : Machine} {outcome : Except Fault Progress} (hm : m.Usable)
    (h : m.cycle = some (outcome, m')) : m'.Usable :=
  (sameShape_cycle h).usable (depth_cycle_le hm.depth h) hm

theorem Usable.exists_cycle {m : Machine} (hm : m.Usable) :
    ∃ outcome m', m.cycle = some (outcome, m') ∧ m'.Usable := by
  obtain ⟨outcome, m', h, -⟩ := hm.sturdy.exists_cycle
  exact ⟨outcome, m', h, hm.cycle h⟩

end Machine

end Chip8
