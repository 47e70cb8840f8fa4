import Chip8.Proofs.Machine.Sprite

/-!
# Sprites over sprites

How often a sprite flips a pixel hangs on where it is put and not on what is lit.  So after sprites
drawn one over the other, a pixel has been flipped as often as all of them flip it together, and all
that matters of that number is whether it is odd:

    s.drawAll sprites = some s' →
      s'.pixels[i]? = s.pixels[i]?, flipped (s.flipsAll i sprites) times          (getElem?_drawAll)
    (∀ i, s.flipsAll i sprites % 2 = s.flipsAll i others % 2) →
      s.drawAll sprites = s.drawAll others                                     (drawAll_congr)

Hence the order of the sprites does not matter, and a sprite drawn twice is as good as none.
-/

namespace Chip8

/-- A sprite and the place of its top left corner. -/
structure Sprite where
  x : UInt8
  y : UInt8
  rows : List UInt8
  deriving DecidableEq, Repr

namespace Screen

/-- Sprites drawn one after another. -/
def drawAll (s : Screen) : List Sprite → Option Screen
  | [] => some s
  | p :: later => (s.draw p.x p.y p.rows).bind fun drawn => drawn.2.drawAll later

/-- How often a sprite flips the pixel that is kept at a place. -/
def flips (s : Screen) (i : Nat) (p : Sprite) : Nat :=
  (spritePoints p.rows).countP fun point =>
    s.place (p.x.toNat + point.1) (p.y.toNat + point.2) == i

/-- The same for many sprites. -/
def flipsAll (s : Screen) (i : Nat) : List Sprite → Nat
  | [] => 0
  | p :: later => s.flips i p + s.flipsAll i later

/-! ## Flips -/

theorem repeat_not_add (a b : Nat) (lit : Bool) :
    (a + b).repeat not lit = a.repeat not (b.repeat not lit) := by
  induction a with
  | zero => rw [Nat.zero_add, Nat.repeat]
  | succ a ih => rw [Nat.succ_add, Nat.repeat, Nat.repeat, ih]

/-- Two flips undo each other. -/
theorem repeat_not_eq (n : Nat) (lit : Bool) :
    n.repeat not lit = if n % 2 = 0 then lit else !lit := by
  induction n with
  | zero => rfl
  | succ n ih =>
    rw [Nat.repeat, ih]
    by_cases even : n % 2 = 0
    · have odd : (n + 1) % 2 ≠ 0 := by omega
      rw [if_pos even, if_neg odd]
    · have next : (n + 1) % 2 = 0 := by omega
      rw [if_neg even, if_pos next, Bool.not_not]

theorem repeat_not_congr {a b : Nat} (h : a % 2 = b % 2) : a.repeat not = b.repeat not := by
  funext lit
  rw [repeat_not_eq, repeat_not_eq, h]

theorem flipsAll_congr {s s' : Screen} (hwidth : s'.width = s.width) (hheight : s'.height = s.height)
    (i : Nat) (sprites : List Sprite) : s'.flipsAll i sprites = s.flipsAll i sprites := by
  induction sprites with
  | nil => rfl
  | cons p later ih => simp only [flipsAll, ih, flips, place_congr hwidth hheight]

theorem getElem?_draw {s s' : Screen} {p : Sprite} {hit : Bool}
    (h : s.draw p.x p.y p.rows = some (hit, s')) (i : Nat) :
    s'.pixels[i]? = s.pixels[i]?.map ((s.flips i p).repeat not) :=
  getElem?_flipAll? (flipAll?_of_draw h) i

/-! ## Many sprites -/

theorem drawAll_cons_eq_some_iff {s s' : Screen} {p : Sprite} {later : List Sprite} :
    s.drawAll (p :: later) = some s' ↔
      ∃ hit s₁, s.draw p.x p.y p.rows = some (hit, s₁) ∧ s₁.drawAll later = some s' := by
  simp only [drawAll, Option.bind_eq_some_iff, Prod.exists]

theorem size_drawAll {s s' : Screen} {sprites : List Sprite} (h : s.drawAll sprites = some s') :
    s'.pixels.size = s.pixels.size ∧ s'.width = s.width ∧ s'.height = s.height := by
  induction sprites generalizing s with
  | nil =>
    obtain rfl : s = s' := Option.some.inj h
    exact ⟨rfl, rfl, rfl⟩
  | cons p later ih =>
    obtain ⟨hit, s₁, hfirst, hlater⟩ := drawAll_cons_eq_some_iff.1 h
    obtain ⟨hpixels, hwidth, hheight⟩ := size_draw hfirst
    obtain ⟨hpixels', hwidth', hheight'⟩ := ih hlater
    exact ⟨hpixels'.trans hpixels, hwidth'.trans hwidth, hheight'.trans hheight⟩

theorem Whole.exists_drawAll {s : Screen} (whole : s.Whole) (sprites : List Sprite) :
    ∃ s', s.drawAll sprites = some s' := by
  induction sprites generalizing s with
  | nil => exact ⟨s, rfl⟩
  | cons p later ih =>
    obtain ⟨hit, s₁, hfirst⟩ := whole.exists_draw p.x p.y p.rows
    obtain ⟨s', hlater⟩ := ih (whole.draw hfirst)
    exact ⟨s', drawAll_cons_eq_some_iff.2 ⟨hit, s₁, hfirst, hlater⟩⟩

/-- By induction on the sprites, on any screen: each adds its own flips. -/
theorem getElem?_drawAll {s s' : Screen} {sprites : List Sprite} (h : s.drawAll sprites = some s')
    (i : Nat) : s'.pixels[i]? = s.pixels[i]?.map ((s.flipsAll i sprites).repeat not) := by
  induction sprites generalizing s with
  | nil =>
    obtain rfl : s = s' := Option.some.inj h
    simp [flipsAll, Nat.repeat]
  | cons p later ih =>
    obtain ⟨hit, s₁, hfirst, hlater⟩ := drawAll_cons_eq_some_iff.1 h
    obtain ⟨-, hwidth, hheight⟩ := size_draw hfirst
    rw [ih hlater, getElem?_draw hfirst, Option.map_map, flipsAll_congr hwidth hheight]
    congr 1
    funext lit
    show (s.flipsAll i later).repeat not ((s.flips i p).repeat not lit) = _
    rw [← repeat_not_add, flipsAll, Nat.add_comm]

/-- Screens of one size are the same if all their pixels are. -/
theorem eq_of_pixels {s s' : Screen} (hwidth : s'.width = s.width) (hheight : s'.height = s.height)
    (hpixels : ∀ i : Nat, s'.pixels[i]? = s.pixels[i]?) : s' = s := by
  obtain ⟨width, height, pixels⟩ := s
  obtain ⟨width', height', pixels'⟩ := s'
  obtain rfl : width' = width := hwidth
  obtain rfl : height' = height := hheight
  obtain rfl : pixels' = pixels := Array.ext_getElem? hpixels
  rfl

theorem drawAll_congr {s : Screen} (whole : s.Whole) {sprites others : List Sprite}
    (h : ∀ i, s.flipsAll i sprites % 2 = s.flipsAll i others % 2) :
    s.drawAll sprites = s.drawAll others := by
  obtain ⟨s₁, h₁⟩ := whole.exists_drawAll sprites
  obtain ⟨s₂, h₂⟩ := whole.exists_drawAll others
  obtain ⟨-, hwidth₁, hheight₁⟩ := size_drawAll h₁
  obtain ⟨-, hwidth₂, hheight₂⟩ := size_drawAll h₂
  have same : s₁ = s₂ := by
    refine eq_of_pixels (hwidth₁.trans hwidth₂.symm) (hheight₁.trans hheight₂.symm) fun i => ?_
    rw [getElem?_drawAll h₁, getElem?_drawAll h₂, repeat_not_congr (h i)]
  rw [h₁, h₂, same]

theorem flipsAll_perm {s : Screen} (i : Nat) {sprites others : List Sprite}
    (h : sprites.Perm others) : s.flipsAll i sprites = s.flipsAll i others := by
  induction h with
  | nil => rfl
  | cons p _ ih => rw [flipsAll, flipsAll, ih]
  | swap p q later =>
    show s.flips i q + (s.flips i p + _) = s.flips i p + (s.flips i q + _)
    omega
  | trans _ _ ih₁ ih₂ => exact ih₁.trans ih₂

theorem flipsAll_twice (s : Screen) (i : Nat) (p : Sprite) (sprites : List Sprite) :
    s.flipsAll i (p :: p :: sprites) % 2 = s.flipsAll i sprites % 2 := by
  simp only [flipsAll]
  omega

/-! ## Main statement -/

/-- On a screen with all its pixels sprites of any length can be drawn one over the other, in any
order and with the same result, and a sprite drawn twice more anywhere among them changes nothing.  A
sprite drawn twice in a row restores the screen and collides in one of the two draws, unless it has
no set bit. -/
theorem drawAll_commutes {s : Screen} (whole : s.Whole) :
    (∀ sprites, ∃ s', s.drawAll sprites = some s' ∧
      (∀ reordered, reordered.Perm sprites → s.drawAll reordered = some s') ∧
      ∀ p more, more.Perm (p :: p :: sprites) → s.drawAll more = some s') ∧
    ∀ (x y : UInt8) (rows : List UInt8), ∃ first s₁ second,
      s.draw x y rows = some (first, s₁) ∧ s₁.draw x y rows = some (second, s) ∧
      (first = true ∨ second = true ↔ 0 < setBits rows) := by
  constructor
  · intro sprites
    obtain ⟨s', h⟩ := whole.exists_drawAll sprites
    refine ⟨s', h, fun reordered perm => ?_, fun p more perm => ?_⟩
    · rw [← h]
      apply drawAll_congr whole
      intro i
      rw [flipsAll_perm i perm]
    · rw [← h]
      apply drawAll_congr whole
      intro i
      rw [flipsAll_perm i perm, flipsAll_twice]
  · intro x y rows
    obtain ⟨first, s₁, hfirst⟩ := whole.exists_draw x y rows
    obtain ⟨second, s₂, hsecond⟩ := (whole.draw hfirst).exists_draw x y rows
    have twice : s.drawAll [⟨x, y, rows⟩, ⟨x, y, rows⟩] = some s₂ :=
      drawAll_cons_eq_some_iff.2 ⟨first, s₁, hfirst,
        drawAll_cons_eq_some_iff.2 ⟨second, s₂, hsecond, rfl⟩⟩
    have never : s.drawAll [⟨x, y, rows⟩, ⟨x, y, rows⟩] = some s :=
      drawAll_congr whole fun i => flipsAll_twice s i ⟨x, y, rows⟩ []
    obtain rfl : s₂ = s := Option.some.inj (twice.symm.trans never)
    refine ⟨first, s₁, second, hfirst, hsecond, ?_⟩
    have bounded := (lit_flipAll? (flipAll?_of_draw hfirst)).1
    have bounded' := (lit_flipAll? (flipAll?_of_draw hsecond)).1
    rw [length_spritePoints] at bounded bounded'
    rw [collision_draw hfirst, collision_draw hsecond]
    omega

/-- Two sprites that both overlap themselves, on a screen three pixels wide and two high. -/
theorem drawAll_commutes_small :
    let s : Screen := ⟨3, 2, #[true, false, false, false, false, false]⟩
    let p : Sprite := ⟨254, 1, [0xFF, 0x80, 0x01]⟩
    let q : Sprite := ⟨7, 0, [0xA5]⟩
    s.Whole ∧
      (∃ s', s.drawAll [p, q] = some s' ∧ s.drawAll [q, p] = some s' ∧
        s.drawAll [p, q, p, p] = some s') ∧
      ∃ first s₁ second, s.draw 254 1 [0xFF, 0x80, 0x01] = some (first, s₁) ∧
        s₁.draw 254 1 [0xFF, 0x80, 0x01] = some (second, s) ∧ (first = true ∨ second = true) := by
  intro s p q
  have whole : s.Whole := ⟨by decide, by decide, rfl⟩
  obtain ⟨s', h, order, twice⟩ := (drawAll_commutes whole).1 [p, q]
  obtain ⟨first, s₁, second, hfirst, hsecond, collides⟩ :=
    (drawAll_commutes whole).2 254 1 [0xFF, 0x80, 0x01]
  have later : ([q] ++ [p, p]).Perm ([p, p] ++ [q]) := List.perm_append_comm
  exact ⟨whole, ⟨s', h, order [q, p] (.swap p q []), twice p [p, q, p, p] (later.cons p)⟩,
    first, s₁, second, hfirst, hsecond, collides.2 (by decide)⟩

end Screen

end Chip8
