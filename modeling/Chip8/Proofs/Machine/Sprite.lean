import Chip8.Proofs.Machine.Sturdy

/-!
# Sprites on a torus

Drawing flips one pixel after the other, so a pixel is flipped as often as a point of the sprite
comes to lie on it, and the order of the points does not matter.  A flip lights a dark pixel and
darkens a lit one: the lit pixels grow by one for each point, unless one of the points was lit.

    s.flipAll? x y points = some (hit, s') →
      s'.pixels[i]? = s.pixels[i]?, flipped for each point placed at i           (getElem?_flipAll?)
      hit = true ↔ s'.lit.length < s.lit.length + points.length                  (lit_flipAll?)

For the points of a sprite these are the set bits of its rows (`draw_torus`).
-/

namespace Chip8.Screen

/-! ## One point -/

theorem flip?_eq_some_iff {s s' : Screen} {x y : Nat} {hit : Bool} :
    s.flip? x y = some (hit, s') ↔ ∃ h : s.place x y < s.pixels.size,
      hit = s.pixels[s.place x y] ∧
      s' = { s with pixels := s.pixels.set (s.place x y) (!s.pixels[s.place x y]) h } := by
  unfold flip?
  simp only
  split
  · next h => simp [h, eq_comm]
  · next h => simp [h]

/-- A flip changes its own pixel and no other. -/
theorem getElem?_flip? {s s' : Screen} {x y : Nat} {hit : Bool} (h : s.flip? x y = some (hit, s'))
    (i : Nat) :
    s'.pixels[i]? = s.pixels[i]?.map fun lit => if s.place x y = i then !lit else lit := by
  obtain ⟨inside, -, rfl⟩ := flip?_eq_some_iff.1 h
  by_cases same : s.place x y = i
  · subst same
    simp [inside]
  · simp [Array.getElem?_set_ne inside same, same]

/-- The lit pixels, counted. -/
theorem length_lit (s : Screen) : s.lit.length = s.pixels.count true :=
  calc s.lit.length = s.pixels.toList.zipIdx.countP ((· == true) ∘ Prod.fst) := by
        rw [lit, List.length_filterMap_eq_countP]
        congr 1
        funext ⟨lit, place⟩
        cases lit <;> rfl
    _ = (s.pixels.toList.zipIdx.map Prod.fst).countP (· == true) := List.countP_map.symm
    _ = s.pixels.count true := by rw [List.zipIdx_map_fst, ← List.count, Array.count_toList]

/-- A flip takes a lit pixel away or adds one. -/
theorem lit_flip? {s s' : Screen} {x y : Nat} {hit : Bool} (h : s.flip? x y = some (hit, s')) :
    if hit then s'.lit.length + 1 = s.lit.length else s'.lit.length = s.lit.length + 1 := by
  obtain ⟨inside, rfl, rfl⟩ := flip?_eq_some_iff.1 h
  simp only [length_lit, Array.count_set]
  cases before : s.pixels[s.place x y] with
  | false => simp
  | true =>
    have pos : 0 < s.pixels.count true :=
      Array.count_pos_iff.2 (before ▸ Array.getElem_mem inside)
    show s.pixels.count true - 1 + 0 + 1 = s.pixels.count true
    omega

/-! ## Many points -/

theorem repeat_not (n : Nat) (b : Bool) : n.repeat not (!b) = !n.repeat not b := by
  induction n with
  | zero => rfl
  | succ n ih => rw [Nat.repeat, Nat.repeat, ih]

theorem flipAll?_cons_eq_some_iff {s s' : Screen} {x y : Nat} {p : Nat × Nat}
    {later : List (Nat × Nat)} {hit : Bool} :
    s.flipAll? x y (p :: later) = some (hit, s') ↔
      ∃ first s₁ rest, s.flip? (x + p.1) (y + p.2) = some (first, s₁) ∧
        s₁.flipAll? x y later = some (rest, s') ∧ hit = (first || rest) := by
  simp only [flipAll?, Option.bind_eq_bind, Option.bind_eq_some_iff, Prod.exists, Option.pure_def,
    Option.some.injEq, Prod.mk.injEq]
  constructor
  · rintro ⟨first, s₁, hfirst, rest, s₂, hrest, rfl, rfl⟩
    exact ⟨first, s₁, rest, hfirst, hrest, rfl⟩
  · rintro ⟨first, s₁, rest, hfirst, hrest, rfl⟩
    exact ⟨first, s₁, hfirst, rest, s', hrest, rfl, rfl⟩

/-- By induction on the points, on any screen: each pixel is flipped once for each point on it. -/
theorem getElem?_flipAll? {s s' : Screen} {x y : Nat} {points : List (Nat × Nat)} {hit : Bool}
    (h : s.flipAll? x y points = some (hit, s')) (i : Nat) :
    s'.pixels[i]? = s.pixels[i]?.map
      ((points.countP fun p => s.place (x + p.1) (y + p.2) == i).repeat not) := by
  induction points generalizing s hit with
  | nil =>
    cases h
    simp [Nat.repeat]
  | cons p later ih =>
    obtain ⟨first, s₁, rest, hfirst, hrest, -⟩ := flipAll?_cons_eq_some_iff.1 h
    obtain ⟨-, hwidth, hheight⟩ := size_flip? hfirst
    rw [ih hrest, getElem?_flip? hfirst, Option.map_map]
    simp only [place_congr hwidth hheight, List.countP_cons]
    congr 1
    funext lit
    by_cases same : s.place (x + p.1) (y + p.2) = i
    · simp [same, repeat_not, Nat.repeat]
    · simp [same]

/-- By induction on the points: the lit pixels grow by one for each point if none of them was lit,
and by less if one was. -/
theorem lit_flipAll? {s s' : Screen} {x y : Nat} {points : List (Nat × Nat)} {hit : Bool}
    (h : s.flipAll? x y points = some (hit, s')) :
    s'.lit.length ≤ s.lit.length + points.length ∧
      (hit = true ↔ s'.lit.length < s.lit.length + points.length) := by
  induction points generalizing s hit with
  | nil =>
    cases h
    simp
  | cons p later ih =>
    obtain ⟨first, s₁, rest, hfirst, hrest, rfl⟩ := flipAll?_cons_eq_some_iff.1 h
    obtain ⟨bounded, hits⟩ := ih hrest
    have step := lit_flip? hfirst
    rw [List.length_cons, Bool.or_eq_true, hits]
    cases first with
    | true =>
      have step : s₁.lit.length + 1 = s.lit.length := step
      exact ⟨by omega, fun _ => by omega, fun _ => .inl rfl⟩
    | false =>
      have step : s₁.lit.length = s.lit.length + 1 := step
      refine ⟨by omega, ?_, fun less => .inr (by omega)⟩
      rintro (none | less)
      · cases none
      · omega

/-! ## Sprites -/

/-- Whether a row of a sprite has its bit set at a column, the high bit leftmost. -/
def isSet (bits : UInt8) (column : Nat) : Bool := bits.toNat.testBit (7 - column)

/-- The bits of a sprite, row by row: whether each is set, and its column and row. -/
def spriteBits (rows : List UInt8) : List (Bool × Nat × Nat) :=
  rows.zipIdx.flatMap fun (bits, row) =>
    (List.range 8).map fun column => (isSet bits column, column, row)

/-- The set bits of the rows. -/
def setBits (rows : List UInt8) : Nat := (spriteBits rows).countP fun (set, _) => set

/-- The set bits of a sprite that come to lie on a pixel. -/
def landings (s : Screen) (x y : Nat) (rows : List UInt8) (px py : Nat) : Nat :=
  (spriteBits rows).countP fun (set, column, row) =>
    set && (y + row) % s.height.toNat == py && (x + column) % s.width.toNat == px

/-- The points of a sprite are its set bits. -/
theorem spritePoints_eq (rows : List UInt8) :
    spritePoints rows = (spriteBits rows).filterMap fun bit => if bit.1 then some bit.2 else none := by
  simp only [spriteBits, List.filterMap_flatMap, List.filterMap_map]
  rfl

theorem countP_spritePoints (rows : List UInt8) (p : Nat × Nat → Bool) :
    (spritePoints rows).countP p = (spriteBits rows).countP fun bit => bit.1 && p bit.2 := by
  rw [spritePoints_eq, List.countP_filterMap]
  congr 1
  funext ⟨set, point⟩
  cases set <;> rfl

theorem length_spritePoints (rows : List UInt8) : (spritePoints rows).length = setBits rows := by
  rw [← List.countP_true, countP_spritePoints, setBits]
  congr 1
  funext ⟨set, point⟩
  exact Bool.and_true set

/-- Places tell the pixels of a screen apart. -/
theorem place_eq_iff {s : Screen} {x y px py : Nat} (hpx : px < s.width.toNat) :
    s.place x y = py * s.width.toNat + px ↔ y % s.height.toNat = py ∧ x % s.width.toNat = px := by
  have hwidth : 0 < s.width.toNat := Nat.zero_lt_of_lt hpx
  have hx : x % s.width.toNat < s.width.toNat := Nat.mod_lt _ hwidth
  unfold place
  constructor
  · intro h
    have column : x % s.width.toNat = px := by
      have h := congrArg (· % s.width.toNat) h
      simpa [Nat.mul_comm, Nat.mod_eq_of_lt hpx] using h
    rw [column] at h
    exact ⟨Nat.eq_of_mul_eq_mul_right hwidth (Nat.add_right_cancel h), column⟩
  · rintro ⟨rfl, rfl⟩
    rfl

/-- The points of a sprite at the place of a pixel are the set bits that come to lie on it. -/
theorem countP_place {s : Screen} {px py : Nat} (hpx : px < s.width.toNat) (x y : Nat)
    (rows : List UInt8) :
    (spritePoints rows).countP (fun p => s.place (x + p.1) (y + p.2) == py * s.width.toNat + px) =
      s.landings x y rows px py := by
  have lands (column row : Nat) :
      (s.place (x + column) (y + row) == py * s.width.toNat + px) =
        ((y + row) % s.height.toNat == py && (x + column) % s.width.toNat == px) := by
    rw [Bool.eq_iff_iff, beq_iff_eq, place_eq_iff hpx, Bool.and_eq_true, beq_iff_eq, beq_iff_eq]
  rw [countP_spritePoints, landings]
  congr 1
  funext ⟨set, column, row⟩
  show (set && (s.place (x + column) (y + row) == py * s.width.toNat + px)) = _
  rw [lands]
  exact (Bool.and_assoc _ _ _).symm

theorem pixel?_eq {s : Screen} (whole : s.Whole) {px py : Nat} (hpx : px < s.width.toNat)
    (hpy : py < s.height.toNat) : s.pixel? px py = s.pixels[py * s.width.toNat + px]? := by
  rw [pixel?, if_neg (not_or.2 ⟨whole.width, whole.height⟩), place, Nat.mod_eq_of_lt hpx,
    Nat.mod_eq_of_lt hpy]

/-! ## Drawing -/

theorem flipAll?_of_draw {s s' : Screen} {x y : UInt8} {rows : List UInt8} {hit : Bool}
    (h : s.draw x y rows = some (hit, s')) :
    s.flipAll? x.toNat y.toNat (spritePoints rows) = some (hit, s') := by
  unfold draw at h
  split at h
  · cases h
  · exact h

theorem Whole.exists_draw {s : Screen} (whole : s.Whole) (x y : UInt8) (rows : List UInt8) :
    ∃ collision s', s.draw x y rows = some (collision, s') := by
  obtain ⟨⟨collision, s'⟩, h⟩ :
      ∃ drawn, s.flipAll? x.toNat y.toNat (spritePoints rows) = some drawn :=
    Option.isSome_iff_exists.1 (flipAll?_isSome_iff.2 fun p _ => whole.place_lt _ _)
  exact ⟨collision, s', by simp [draw, whole.width, whole.height, h]⟩

theorem Whole.draw {s s' : Screen} (whole : s.Whole) {x y : UInt8} {rows : List UInt8} {hit : Bool}
    (h : s.draw x y rows = some (hit, s')) : s'.Whole := by
  obtain ⟨hpixels, hwidth, hheight⟩ := size_draw h
  exact ⟨hwidth ▸ whole.width, hheight ▸ whole.height, by
    rw [hpixels, hwidth, hheight, whole.pixels]⟩

theorem Whole.exists_pixel? {s : Screen} (whole : s.Whole) (px py : Nat) :
    ∃ lit, s.pixel? px py = some lit := by
  rw [pixel?, if_neg (not_or.2 ⟨whole.width, whole.height⟩)]
  exact ⟨_, Array.getElem?_eq_getElem (whole.place_lt px py)⟩

/-- A pixel is flipped as often as the sprite has set bits that come to lie on it. -/
theorem pixel?_draw {s s' : Screen} (whole : s.Whole) {x y : UInt8} {rows : List UInt8} {hit : Bool}
    (h : s.draw x y rows = some (hit, s')) {px py : Nat} (hpx : px < s.width.toNat)
    (hpy : py < s.height.toNat) :
    s'.pixel? px py = (s.pixel? px py).map ((s.landings x.toNat y.toNat rows px py).repeat not) := by
  obtain ⟨-, hwidth, hheight⟩ := size_draw h
  rw [pixel?_eq whole hpx hpy, pixel?_eq (whole.draw h) (hwidth ▸ hpx) (hheight ▸ hpy), hwidth,
    getElem?_flipAll? (flipAll?_of_draw h), countP_place hpx]

/-- There is a collision just if fewer pixels are lit than were lit and drawn together. -/
theorem collision_draw {s s' : Screen} {x y : UInt8} {rows : List UInt8} {hit : Bool}
    (h : s.draw x y rows = some (hit, s')) :
    hit = true ↔ s'.lit.length < s.lit.length + setBits rows := by
  rw [← length_spritePoints]
  exact (lit_flipAll? (flipAll?_of_draw h)).2

/-! ## Main statement -/

/-- On a screen with all its pixels a sprite of any length can be drawn at any place.  Each pixel is
flipped once for each set bit that comes to lie on it, both axes wrapping round, the shape of the
screen stays, and there is a collision just if there are fewer lit pixels afterwards than before and
in the sprite together. -/
theorem draw_torus {s : Screen} (whole : s.Whole) (x y : UInt8) (rows : List UInt8) :
    ∃ collision s', s.draw x y rows = some (collision, s') ∧
      s'.width = s.width ∧ s'.height = s.height ∧ s'.pixels.size = s.pixels.size ∧
      (∀ px py, px < s.width.toNat → py < s.height.toNat → ∃ lit, s.pixel? px py = some lit ∧
        s'.pixel? px py = some ((s.landings x.toNat y.toNat rows px py).repeat not lit)) ∧
      (collision = true ↔ s'.lit.length < s.lit.length + setBits rows) := by
  obtain ⟨collision, s', h⟩ := whole.exists_draw x y rows
  obtain ⟨hpixels, hwidth, hheight⟩ := size_draw h
  refine ⟨collision, s', h, hwidth, hheight, hpixels, fun px py hpx hpy => ?_, collision_draw h⟩
  obtain ⟨lit, before⟩ := whole.exists_pixel? px py
  refine ⟨lit, before, ?_⟩
  rw [pixel?_draw whole h hpx hpy, before, Option.map_some]

/-- A row of eight wraps three times round a screen three pixels wide, and on one two pixels high the
third row of the sprite comes to lie where its first row did. -/
theorem draw_torus_small :
    let s : Screen := ⟨3, 2, #[true, false, false, false, false, false]⟩
    s.Whole ∧ ∃ collision s', s.draw 254 1 [0xFF, 0x80, 0x01] = some (collision, s') ∧
      collision = true ∧ s'.pixels = #[true, false, true, false, false, true] ∧
      (collision = true ↔ s'.lit.length < s.lit.length + setBits [0xFF, 0x80, 0x01]) ∧
      ∀ px py, px < 3 → py < 2 → ∃ lit, s.pixel? px py = some lit ∧ s'.pixel? px py =
        some ((s.landings 254 1 [0xFF, 0x80, 0x01] px py).repeat not lit) := by
  intro s
  have whole : s.Whole := ⟨by decide, by decide, rfl⟩
  obtain ⟨collision, s', h, -, -, -, pixels, less⟩ := draw_torus whole 254 1 [0xFF, 0x80, 0x01]
  have drawn : s.draw 254 1 [0xFF, 0x80, 0x01] =
      some (true, ⟨3, 2, #[true, false, true, false, false, true]⟩) := by decide
  obtain ⟨rfl, rfl⟩ := Prod.mk.inj (Option.some.inj (drawn.symm.trans h))
  exact ⟨whole, _, _, h, rfl, rfl, less, pixels⟩

end Chip8.Screen
