import Chip8.Proofs.Machine.Sturdy

/-!
# Damaged machines

A damaged machine may run well for a long time, as long as its program does not ask for what is
missing.  But the program of another machine with the same damage does, so `Sturdy` is exactly what
a machine needs to be safe with any program:

    m.Sturdy ↔ ∀ other, m.SameBuild other → ∀ keypads, ∃ last, other.cycles keypads = some last
                                                                              (sturdy_iff)

Three programs find the damage: one that starts at the first missing byte, one that returns, and one
that draws a full sprite.
-/

namespace Chip8.Machine

/-! ## Many cycles -/

/-- Cycles one after another, each with the keys that are held then.  A fault does not end them. -/
def cycles (m : Machine) : List Keypad → Option Machine
  | [] => some m
  | keypad :: later => do
    let (_, m) ← (m.setKeypad keypad).cycle
    m.cycles later

/-- What holds after a change of keys, and makes for a cycle and holds after it, holds for good. -/
theorem exists_cycles {Good : Machine → Prop}
    (hheld : ∀ {m} (keypad : Keypad), Good m → Good (m.setKeypad keypad))
    (hcycle : ∀ {m}, Good m → ∃ outcome m', m.cycle = some (outcome, m') ∧ Good m') {m : Machine}
    (hm : Good m) (keypads : List Keypad) : ∃ last, m.cycles keypads = some last ∧ Good last := by
  induction keypads generalizing m with
  | nil => exact ⟨m, rfl, hm⟩
  | cons keypad later ih =>
    obtain ⟨outcome, m', hnext, hm'⟩ := hcycle (hheld keypad hm)
    obtain ⟨last, hlater, hlast⟩ := ih hm'
    exact ⟨last, by simp [cycles, hnext, hlater], hlast⟩

theorem Sturdy.exists_cycles {m : Machine} (hm : m.Sturdy) (keypads : List Keypad) :
    ∃ last, m.cycles keypads = some last ∧ last.Sturdy :=
  Machine.exists_cycles (fun _ hm => ⟨hm.memory, hm.depth, hm.screen⟩) Sturdy.exists_cycle hm
    keypads

theorem Usable.exists_cycles {m : Machine} (hm : m.Usable) (keypads : List Keypad) :
    ∃ last, m.cycles keypads = some last ∧ last.Usable :=
  Machine.exists_cycles (fun _ hm => ⟨hm.memory, hm.depth, hm.width, hm.height, hm.pixels⟩)
    Usable.exists_cycle hm keypads

theorem cycle_isSome_of_cycles {m : Machine} (h : ∀ keypads, ∃ last, m.cycles keypads = some last) :
    m.cycle.isSome := by
  obtain ⟨last, hlast⟩ := h [m.keypad]
  have held : m.setKeypad m.keypad = m := rfl
  simp only [cycles, held, Option.bind_eq_bind, Option.bind_eq_some_iff] at hlast
  obtain ⟨next, hnext, -⟩ := hlast
  rw [hnext]
  rfl

/-! ## Programs that find the damage -/

/-- As much memory, as deep a stack, and a screen of the same size with as many pixels. -/
structure SameBuild (m other : Machine) : Prop extends m.SameShape other where
  depth : other.depth = m.depth

/-- The machine with another instruction ahead, at the start of a memory that is filled with one
byte. -/
def staged (m : Machine) (high low filler : UInt8) : Machine :=
  { m with
    counter := 0
    memory := ⟨#[high, low] ++ Array.replicate (m.memory.bytes.size - 2) filler⟩ }

/-- The machine about to draw fifteen full rows with their upper left corner at a place. -/
def drawing (m : Machine) (x y : UInt8) : Machine :=
  { ((m.staged 0xD0 0x1F 0xFF).setRegister Register.first x).setRegister (lastDigit 1) y with
    index := 2 }

theorem word?_staged (m : Machine) (high low filler : UInt8) :
    (m.staged high low filler).memory.word? 0 = some (high.toUInt16 * 0x100 + low.toUInt16) := by
  have hhigh : (m.staged high low filler).memory.read? 0 = some high :=
    Array.getElem?_append_left (by simp : 0 < #[high, low].size)
  have hlow : (m.staged high low filler).memory.read? 1 = some low :=
    Array.getElem?_append_left (by simp : 1 < #[high, low].size)
  have hnext : (0 : UInt16) + 1 = 1 := rfl
  rw [Memory.word?, hhigh, hnext, hlow]
  rfl

section

variable {m : Machine} (full : Memory.size ≤ m.memory.bytes.size)
include full

theorem size_staged (high low filler : UInt8) :
    (m.staged high low filler).memory.bytes.size = m.memory.bytes.size := by
  unfold Memory.size at full
  simp only [staged, Array.size_append, Array.size_replicate, List.size_toArray, List.length_cons,
    List.length_nil]
  omega

theorem read?_staged (high low filler : UInt8) {place : Nat} (hlow : 2 ≤ place)
    (hhigh : place < Memory.size) :
    (m.staged high low filler).memory.read? (UInt16.ofNat place) = some filler := by
  rw [Memory.read?, Memory.toNat_ofNat_mod hhigh]
  unfold Memory.size at full hhigh
  simp only [staged]
  rw [Array.getElem?_append_right hlow, Array.getElem?_replicate, if_pos]
  simp
  omega

/-- Bytes read from the filled part. -/
theorem readMany?_staged (high low filler : UInt8) (count : Nat) :
    ∀ start, 2 ≤ start → start + count ≤ Memory.size →
      (m.staged high low filler).memory.readMany? (UInt16.ofNat start) count =
        some (List.replicate count filler) := by
  induction count with
  | zero => exact fun start _ _ => rfl
  | succ count ih =>
    intro start hstart hend
    have hnext : UInt16.ofNat start + 1 = UInt16.ofNat (start + 1) := by simp
    have hread := read?_staged full high low filler hstart (by omega)
    have hlater := ih (start + 1) (by omega) (by omega)
    simp only [Memory.readMany?, hread, hnext, hlater, Option.bind_eq_bind, Option.bind_some]
    rfl

/-! ## What they find -/

theorem sameBuild_staged (high low filler : UInt8) :
    m.SameBuild (m.staged high low filler) :=
  ⟨⟨size_staged full high low filler, rfl, rfl, rfl, rfl⟩, rfl⟩

theorem sameBuild_drawing (x y : UInt8) : m.SameBuild (m.drawing x y) :=
  ⟨⟨size_staged full 0xD0 0x1F 0xFF, rfl, rfl, rfl, rfl⟩, rfl⟩

end

theorem cycle_skewed {m : Machine} (short : m.memory.bytes.size < Memory.size) :
    ({ m with counter := UInt16.ofNat m.memory.bytes.size } : Machine).cycle = none := by
  have hread : m.memory.read? (UInt16.ofNat m.memory.bytes.size) = none := by
    rw [Memory.read?, Memory.toNat_ofNat_mod short]
    exact Array.getElem?_eq_none (Nat.le_refl _)
  simp [cycle, Memory.word?, hread]

/-- A return finds no address where the stack is deeper than its cells. -/
theorem cycle_deep {m : Machine} (hret : m.memory.word? m.counter = some 0x00EE)
    (deep : 16 < m.depth.toNat) : m.cycle = none := by
  have hdepth : m.depth ≠ 0 := by
    intro h
    rw [h] at deep
    exact absurd deep (by decide)
  have hplace : 16 ≤ (m.depth - 1).toNat := by
    rw [toNat_depth_sub_one hdepth]
    omega
  have htop : m.stack[(m.depth - 1).toNat]? = none := Vector.getElem?_eq_none hplace
  have hdecode : Instruction.decode 0x00EE = some .ret := rfl
  simp [cycle, hret, hdecode, execute, hdepth, return?, htop]

/-- A full sprite finds a pixel for each of its points, or is not drawn. -/
theorem place_lt_of_drawing {m : Machine} (full : Memory.size ≤ m.memory.bytes.size) {x y : UInt8}
    (h : (m.drawing x y).cycle.isSome) :
    m.screen.width ≠ 0 ∧ m.screen.height ≠ 0 ∧ ∀ column row, column < 8 → row < 15 →
      m.screen.place (x.toNat + column) (y.toNat + row) < m.screen.pixels.size := by
  have hword : (m.drawing x y).memory.word? (m.drawing x y).counter = some 0xD01F :=
    word?_staged m 0xD0 0x1F 0xFF
  have hdecode : Instruction.decode 0xD01F =
      some (.draw Register.first (lastDigit 1) (lastDigit 15)) := rfl
  simp only [cycle, hword, hdecode, execute, Option.bind_eq_bind, Option.bind_some] at h
  obtain ⟨_, h⟩ := Option.isSome_iff_exists.1 h
  obtain ⟨_, hdraw, -⟩ := Option.bind_eq_some_iff.1 h
  obtain ⟨sprite, collision, screen, hread, hscreen, -⟩ := draw?_eq_some_iff.1 hdraw
  have hsprite : sprite = List.replicate 15 0xFF := by
    have hfull := readMany?_staged full 0xD0 0x1F 0xFF 15 2 (by omega) (by decide)
    exact Option.some.inj (hread.symm.trans hfull)
  have hx : (m.drawing x y).registers.get Register.first = x := by
    show ((m.registers.put Register.first x).put (lastDigit 1) y).get Register.first = x
    rw [Cells.get_put, Cells.get_put, if_neg (by decide), if_pos rfl]
  have hy : (m.drawing x y).registers.get (lastDigit 1) = y := by
    show ((m.registers.put Register.first x).put (lastDigit 1) y).get (lastDigit 1) = y
    rw [Cells.get_put, if_pos rfl]
  have hsome : m.screen.draw ((m.drawing x y).registers.get Register.first)
      ((m.drawing x y).registers.get (lastDigit 1)) sprite = some (collision, screen) := hscreen
  rw [hx, hy, Screen.draw] at hsome
  split at hsome
  · cases hsome
  · next hsize =>
    rw [not_or] at hsize
    refine ⟨hsize.1, hsize.2, fun column row hcolumn hrow => ?_⟩
    have hflip : (m.screen.flipAll? x.toNat y.toNat (Screen.spritePoints sprite)).isSome := by
      rw [hsome]
      rfl
    refine Screen.flipAll?_isSome_iff.1 hflip (column, row) (Screen.mem_spritePoints.2 ?_)
    refine ⟨0xFF, ?_, hcolumn, ?_⟩
    · rw [hsprite, List.getElem?_replicate, if_pos hrow]
    · have hbits : ∀ n, n < 8 → (0xFF : UInt8).toNat.testBit (7 - n) = true := by decide
      exact hbits column hcolumn

/-! ## Safe with any program -/

/-- A place within reach of a sprite is a corner and a bit of the sprite. -/
theorem exists_corner {place extent : Nat} (hextent : 0 < extent) (h : place < 255 + extent) :
    ∃ (corner : UInt8) (past : Nat), past < extent ∧ corner.toNat + past = place := by
  have hcorner : (UInt8.ofNat (min place 255)).toNat = min place 255 :=
    UInt8.toNat_ofNat_of_lt' (by unfold UInt8.size; omega)
  exact ⟨UInt8.ofNat (min place 255), place - 255, by omega, by omega⟩

/-- Nothing is missing exactly if no machine of the same build ever comes to a place where something
is. -/
theorem sturdy_iff (m : Machine) :
    m.Sturdy ↔
      ∀ other, m.SameBuild other → ∀ keypads, ∃ last, other.cycles keypads = some last := by
  constructor
  · intro hm other hother keypads
    have depth : other.depth.toNat ≤ 16 := hother.depth ▸ hm.depth
    obtain ⟨last, hlast, -⟩ := (hother.toSameShape.sturdy depth hm).exists_cycles keypads
    exact ⟨last, hlast⟩
  · intro h
    have hcycle : ∀ other, m.SameBuild other → other.cycle.isSome := fun other hother =>
      cycle_isSome_of_cycles (h other hother)
    have full : Memory.size ≤ m.memory.bytes.size := by
      by_cases short : m.memory.bytes.size < Memory.size
      · have hnone := hcycle { m with counter := UInt16.ofNat m.memory.bytes.size }
          ⟨sameShape_of_eq rfl rfl rfl, rfl⟩
        rw [cycle_skewed short] at hnone
        exact absurd hnone (by decide)
      · omega
    have hdepth : m.depth.toNat ≤ 16 := by
      by_cases deep : 16 < m.depth.toNat
      · have hnone := hcycle _ (sameBuild_staged full 0x00 0xEE 0)
        rw [cycle_deep (word?_staged m 0x00 0xEE 0) deep] at hnone
        exact absurd hnone (by decide)
      · omega
    have hdraw (x y : UInt8) := place_lt_of_drawing full (hcycle _ (sameBuild_drawing full x y))
    refine ⟨full, hdepth, (hdraw 0 0).1, (hdraw 0 0).2.1, fun x y hx hy => ?_⟩
    obtain ⟨left, column, hcolumn, rfl⟩ := exists_corner (by decide : 0 < 8) hx
    obtain ⟨upper, row, hrow, rfl⟩ := exists_corner (by decide : 0 < 15) hy
    exact (hdraw left upper).2.2 column row hcolumn hrow

end Chip8.Machine
