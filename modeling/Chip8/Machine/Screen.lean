/-!
# Screen

A grid of pixels, kept row after row.  A sprite is a list of rows of eight pixels, leftmost in the
high bit; drawing one flips the pixels under its set bits, on a torus: what leaves the screen on
one side comes back on the other.

A screen read from a file may have any width, height and number of pixels.  Where a pixel is asked
for that it lacks, the answer is `none`.
-/

namespace Chip8

structure Screen where
  width : UInt64
  height : UInt64
  pixels : Array Bool
  deriving DecidableEq, Repr

namespace Screen

/-- A dark screen, 64 pixels wide and 32 high, or 64 high in high resolution. -/
def blank (hiRes : Bool) : Screen :=
  let height := if hiRes then 64 else 32
  { width := 64, height := UInt64.ofNat height, pixels := Array.replicate (64 * height) false }

/-- Told by the height alone. -/
def isHiRes (s : Screen) : Bool := s.height == 64

/-- Where a pixel is kept, coordinates taken modulo the size of the screen. -/
def place (s : Screen) (x y : Nat) : Nat :=
  y % s.height.toNat * s.width.toNat + x % s.width.toNat

/-- Whether a pixel is lit. -/
def pixel? (s : Screen) (x y : Nat) : Option Bool :=
  if s.width = 0 ∨ s.height = 0 then none else s.pixels[s.place x y]?

/-- All pixels dark. -/
def clear (s : Screen) : Screen := { s with pixels := s.pixels.map fun _ => false }

/-- The lit pixels as column and row, row after row. -/
def lit (s : Screen) : List (Nat × Nat) :=
  s.pixels.toList.zipIdx.filterMap fun (isLit, place) =>
    if isLit then some (place % s.width.toNat, place / s.width.toNat) else none

/-! ## Sprites -/

/-- The set bits of a sprite as column and row, in reading order. -/
def spritePoints (rows : List UInt8) : List (Nat × Nat) :=
  rows.zipIdx.flatMap fun (row, y) =>
    (List.range 8).filterMap fun x => if row.toNat.testBit (7 - x) then some (x, y) else none

/-- One pixel flipped, and whether it was lit before. -/
def flip? (s : Screen) (x y : Nat) : Option (Bool × Screen) :=
  let place := s.place x y
  if h : place < s.pixels.size then
    some (s.pixels[place], { s with pixels := s.pixels.set place (!s.pixels[place]) h })
  else none

/-- The points flipped one after another, and whether one of them was lit. -/
def flipAll? (s : Screen) (x y : Nat) : List (Nat × Nat) → Option (Bool × Screen)
  | [] => some (false, s)
  | (column, row) :: later => do
    let (hit, s) ← s.flip? (x + column) (y + row)
    let (hits, s) ← s.flipAll? x y later
    return (hit || hits, s)

/-- A sprite drawn with its top left corner at a place, and whether it hit a lit pixel. -/
def draw (s : Screen) (x y : UInt8) (rows : List UInt8) : Option (Bool × Screen) :=
  if s.width = 0 ∨ s.height = 0 then none else s.flipAll? x.toNat y.toNat (spritePoints rows)

/-! ## Lemmas -/

theorem size_clear (s : Screen) : s.clear.pixels.size = s.pixels.size := by simp [clear]

theorem size_flip? {s s' : Screen} {x y : Nat} {hit : Bool} (h : s.flip? x y = some (hit, s')) :
    s'.pixels.size = s.pixels.size ∧ s'.width = s.width ∧ s'.height = s.height := by
  unfold flip? at h
  simp only at h
  split at h
  · cases h; simp
  · cases h

/-- Flipping changes pixels and never the shape of the screen. -/
theorem size_flipAll? {s s' : Screen} {x y : Nat} {points : List (Nat × Nat)} {hit : Bool}
    (h : s.flipAll? x y points = some (hit, s')) :
    s'.pixels.size = s.pixels.size ∧ s'.width = s.width ∧ s'.height = s.height := by
  induction points generalizing s hit with
  | nil => cases h; simp
  | cons p later ih =>
    simp only [flipAll?, Option.bind_eq_bind, Option.bind_eq_some_iff, Prod.exists] at h
    obtain ⟨_, s₁, first, _, s₂, rest, h⟩ := h
    cases h
    have later := ih rest
    have now := size_flip? first
    exact ⟨later.1.trans now.1, later.2.1.trans now.2.1, later.2.2.trans now.2.2⟩

end Screen

end Chip8
