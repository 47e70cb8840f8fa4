import Chip8.Play.Layout
import Chip8.Proofs.Machine.Sprite

/-!
# Screens on a canvas

The lit pixels are listed row by row, and from left to right in a row, each of them once:

    (x, y) ∈ s.lit ↔ x < s.width ∧ y < s.height ∧ s.pixel? x y = some true         (Whole.mem_lit)
    s.lit.Pairwise Before                                                            (pairwise_lit)

Their points keep that order and lie within the bounds of the canvas, and with the size of the
screen they are enough to make it again:

    ofPoints s.width s.height s.points = s                                        (ofPoints_points)

The canvas takes doubles.  A number is rounded to the nearest one, which is the number itself as
long as there are no more than 2⁵³ pixels (Whole.points_double).
-/

namespace Chip8.Screen

/-- Row by row, and from left to right in a row. -/
def Before (p q : Nat × Nat) : Prop := p.2 < q.2 ∨ p.2 = q.2 ∧ p.1 < q.1

/-- The point of a pixel, rows counting upwards. -/
def pointOf (p : Nat × Nat) : Int × Int := (p.1, -p.2)

/-- The screen of a size on which just the pixels at some points are lit. -/
def ofPoints (width height : UInt64) (points : List (Int × Int)) : Screen where
  width := width
  height := height
  pixels := Array.ofFn fun place : Fin (width.toNat * height.toNat) =>
    decide (pointOf (place.val % width.toNat, place.val / width.toNat) ∈ points)

/-- The double nearest to a whole number.  It keeps the highest 53 binary digits, and a tie goes to
the even one of the two. -/
def nearestDouble (n : Nat) : Nat :=
  let unit := 1 <<< (n.log2 - 52)
  let rest := n % unit
  if 2 * rest < unit ∨ 2 * rest = unit ∧ n / unit % 2 = 0 then n - rest else n - rest + unit

/-- Whether a whole number stays as it is when it becomes a double. -/
def IsDouble (a : Int) : Prop := nearestDouble a.natAbs = a.natAbs

instance (a : Int) : Decidable (IsDouble a) := inferInstanceAs (Decidable (_ = _))

/-- With this many pixels the places still fit the digits of a double. -/
def exactLimit : Nat := 0x20000000000000

/-! ## Places and pixels -/

/-- Places are counted row by row. -/
theorem before_of_lt {i j : Nat} (width : Nat) (h : i < j) :
    Before (i % width, i / width) (j % width, j / width) := by
  have hi := Nat.div_add_mod i width
  have hj := Nat.div_add_mod j width
  rcases Nat.lt_or_eq_of_le (Nat.div_le_div_right (c := width) (Nat.le_of_lt h)) with above | same
  · exact .inl above
  · refine .inr ⟨same, ?_⟩
    rw [same] at hi
    show i % width < j % width
    omega

theorem Before.irrefl {p : Nat × Nat} (h : Before p p) : False := by
  rcases h with row | ⟨-, column⟩
  · exact Nat.lt_irrefl _ row
  · exact Nat.lt_irrefl _ column

theorem mem_lit_iff {s : Screen} {x y : Nat} :
    (x, y) ∈ s.lit ↔ ∃ place, s.pixels[place]? = some true ∧
      place % s.width.toNat = x ∧ place / s.width.toNat = y := by
  simp only [lit, List.mem_filterMap, Prod.exists, List.mem_zipIdx_iff_getElem?]
  constructor
  · rintro ⟨lit, place, hplace, h⟩
    split at h
    · next isLit =>
      cases h
      exact ⟨place, by simpa [isLit] using hplace, rfl, rfl⟩
    · cases h
  · rintro ⟨place, hplace, rfl, rfl⟩
    exact ⟨true, place, by simpa using hplace, rfl⟩

/-- The places go up, and the order of pixels follows them. -/
theorem pairwise_lit (s : Screen) : s.lit.Pairwise Before := by
  have places : s.pixels.toList.zipIdx.Pairwise fun a b => a.2 < b.2 := by
    rw [← List.pairwise_map (f := Prod.snd), List.zipIdx_map_snd]
    exact List.pairwise_lt_range'
  refine places.filterMap _ ?_
  rintro ⟨isLit, i⟩ ⟨isLit', j⟩ h p hp q hq
  obtain ⟨-, hp⟩ := Option.ite_none_right_eq_some.1 hp
  obtain ⟨-, hq⟩ := Option.ite_none_right_eq_some.1 hq
  cases hp
  cases hq
  exact before_of_lt _ h

theorem nodup_lit (s : Screen) : s.lit.Nodup := by
  refine (pairwise_lit s).imp ?_
  rintro p _ h rfl
  exact h.irrefl

section
variable {s : Screen} (whole : s.Whole)
include whole

/-- There is a pixel for each place in one of the rows. -/
theorem Whole.place_lt_iff {place : Nat} :
    place < s.pixels.size ↔ place / s.width.toNat < s.height.toNat := by
  rw [whole.pixels, Nat.div_lt_iff_lt_mul whole.width_pos, Nat.mul_comm]

/-- The pixel kept at a place. -/
theorem Whole.pixel?_at {place : Nat} (h : place < s.pixels.size) :
    s.pixel? (place % s.width.toNat) (place / s.width.toNat) = s.pixels[place]? := by
  rw [pixel?_eq whole (Nat.mod_lt _ whole.width_pos) (whole.place_lt_iff.1 h), Nat.div_add_mod']

theorem Whole.mem_lit {x y : Nat} :
    (x, y) ∈ s.lit ↔
      x < s.width.toNat ∧ y < s.height.toNat ∧ s.pixel? x y = some true := by
  rw [mem_lit_iff]
  constructor
  · rintro ⟨place, hplace, rfl, rfl⟩
    have inside : place < s.pixels.size := (Array.getElem?_eq_some_iff.1 hplace).1
    exact ⟨Nat.mod_lt _ whole.width_pos, whole.place_lt_iff.1 inside,
      (whole.pixel?_at inside).trans hplace⟩
  · rintro ⟨hx, hy, hlit⟩
    refine ⟨y * s.width.toNat + x, (pixel?_eq whole hx hy).symm.trans hlit, ?_, ?_⟩
    · rw [Nat.mul_add_mod', Nat.mod_eq_of_lt hx]
    · rw [Nat.add_comm, Nat.add_mul_div_right _ _ (Nat.zero_lt_of_lt hx), Nat.div_eq_of_lt hx,
        Nat.zero_add]

end

/-! ## Points -/

theorem pointOf_inj {p q : Nat × Nat} (h : pointOf p = pointOf q) : p = q := by
  obtain ⟨column, row⟩ := Prod.mk.inj h
  exact Prod.ext (by omega) (by omega)

/-- A number of 53 digits or fewer is its own double. -/
theorem nearestDouble_eq_self {n : Nat} (h : n < exactLimit) : nearestDouble n = n := by
  have digits : n.log2 ≤ 52 := by
    rcases Nat.eq_zero_or_pos n with rfl | hpos
    · decide
    · exact Nat.lt_succ_iff.1 ((Nat.log2_lt (Nat.ne_of_gt hpos)).2 h)
  have unit : n.log2 - 52 = 0 := Nat.sub_eq_zero_of_le digits
  simp [nearestDouble, unit, Nat.mod_one]

example : nearestDouble 0x20000000000001 = 0x20000000000000 := by decide

theorem isDouble_of_lt {a : Int} (h : a.natAbs < exactLimit) : IsDouble a :=
  nearestDouble_eq_self h

theorem points_eq (s : Screen) : s.points = s.lit.map pointOf := rfl

theorem pointOf_mem_points {s : Screen} {p : Nat × Nat} : pointOf p ∈ s.points ↔ p ∈ s.lit := by
  rw [points_eq, List.mem_map]
  constructor
  · rintro ⟨q, hq, same⟩
    exact pointOf_inj same ▸ hq
  · intro hp
    exact ⟨p, hp, rfl⟩

section
variable {s : Screen} (whole : s.Whole)
include whole

theorem Whole.points_inside {p : Int × Int} (hp : p ∈ s.points) :
    s.columnBounds.1 ≤ p.1 ∧ p.1 ≤ s.columnBounds.2 ∧
      s.rowBounds.1 ≤ p.2 ∧ p.2 ≤ s.rowBounds.2 := by
  rw [points_eq, List.mem_map] at hp
  obtain ⟨⟨x, y⟩, hlit, rfl⟩ := hp
  obtain ⟨hx, hy, -⟩ := whole.mem_lit.1 hlit
  simp only [columnBounds, rowBounds, pointOf]
  omega

/-- A pixel is lit just if its point is there. -/
theorem Whole.ofPoints_points : ofPoints s.width s.height s.points = s := by
  have pixels : (ofPoints s.width s.height s.points).pixels = s.pixels := by
    refine Array.ext (by simp [ofPoints, whole.pixels]) fun place _ inside => ?_
    have row := whole.place_lt_iff.1 inside
    have lit : (place % s.width.toNat, place / s.width.toNat) ∈ s.lit ↔ s.pixels[place] = true := by
      rw [whole.mem_lit, whole.pixel?_at inside, Array.getElem?_eq_getElem inside]
      simp [row, Nat.mod_lt, whole.width_pos]
    simp only [ofPoints, Array.getElem_ofFn, pointOf_mem_points, lit, Bool.decide_eq_true]
  show (⟨s.width, s.height, (ofPoints s.width s.height s.points).pixels⟩ : Screen) = s
  rw [pixels]

/-- There are no more columns than pixels, and no more rows. -/
theorem Whole.bounds_lt {limit : Nat} (few : s.pixels.size ≤ limit) :
    s.columnBounds.2.natAbs < limit ∧ s.rowBounds.1.natAbs < limit := by
  have columns : s.width.toNat ≤ s.pixels.size := by
    rw [whole.pixels]
    exact Nat.le_mul_of_pos_right _ whole.height_pos
  have rows : s.height.toNat ≤ s.pixels.size := by
    rw [whole.pixels]
    exact Nat.le_mul_of_pos_left _ whole.width_pos
  have hwidth := whole.width_pos
  have hheight := whole.height_pos
  simp only [columnBounds, rowBounds]
  omega

/-- The ends of the canvas are doubles, and so are the points between them. -/
theorem Whole.points_double (few : s.pixels.size ≤ exactLimit) :
    (∀ p ∈ s.points, IsDouble p.1 ∧ IsDouble p.2) ∧
      IsDouble s.columnBounds.2 ∧ IsDouble s.rowBounds.1 := by
  obtain ⟨columns, rows⟩ := whole.bounds_lt few
  refine ⟨fun p hp => ?_, isDouble_of_lt columns, isDouble_of_lt rows⟩
  obtain ⟨left, right, low, high⟩ := whole.points_inside hp
  simp only [columnBounds, rowBounds] at left right low high columns rows
  exact ⟨isDouble_of_lt (by omega), isDouble_of_lt (by omega)⟩

/-! ## Main statement -/

/-- The lit pixels of a screen with all its pixels are those within its columns and rows that are lit,
each once, row by row and from left to right in a row.  Their points are different ones in the same
order, lie within the bounds of the canvas and tell, with its size, the whole screen.  With up to
2⁵³ pixels none of these numbers changes when it becomes a double. -/
theorem lit_points :
    (∀ x y, (x, y) ∈ s.lit ↔
      x < s.width.toNat ∧ y < s.height.toNat ∧ s.pixel? x y = some true) ∧
    s.lit.Pairwise Before ∧ s.lit.Nodup ∧
    (∀ i : Nat, s.points[i]? = s.lit[i]?.map fun (x, y) => ((x : Int), -(y : Int))) ∧
    s.points.Nodup ∧
    (∀ p ∈ s.points, s.columnBounds.1 ≤ p.1 ∧ p.1 ≤ s.columnBounds.2 ∧
      s.rowBounds.1 ≤ p.2 ∧ p.2 ≤ s.rowBounds.2) ∧
    ofPoints s.width s.height s.points = s ∧
    (s.pixels.size ≤ exactLimit →
      (∀ p ∈ s.points, IsDouble p.1 ∧ IsDouble p.2) ∧
        IsDouble s.columnBounds.2 ∧ IsDouble s.rowBounds.1) := by
  refine ⟨fun x y => whole.mem_lit, pairwise_lit s, nodup_lit s, ?_, ?_,
    fun p => whole.points_inside, whole.ofPoints_points, whole.points_double⟩
  · intro i
    rw [points_eq, List.getElem?_map]
    rfl
  · rw [points_eq]
    apply List.pairwise_map.2
    refine (nodup_lit s).imp ?_
    intro p q other same
    exact other (pointOf_inj same)

end

/-- Two rows of three, the last pixel of the first row and the first two of the second lit. -/
theorem lit_points_small :
    let s : Screen := ⟨3, 2, #[false, false, true, true, true, false]⟩
    s.Whole ∧ s.lit = [(2, 0), (0, 1), (1, 1)] ∧ s.points = [(2, 0), (0, -1), (1, -1)] ∧
      s.lit.Pairwise Before ∧
      (∀ p ∈ s.points, s.columnBounds.1 ≤ p.1 ∧ p.1 ≤ s.columnBounds.2 ∧
        s.rowBounds.1 ≤ p.2 ∧ p.2 ≤ s.rowBounds.2) ∧
      ofPoints 3 2 [(2, 0), (0, -1), (1, -1)] = s ∧
      (∀ p ∈ s.points, IsDouble p.1 ∧ IsDouble p.2) ∧
      IsDouble s.columnBounds.2 ∧ IsDouble s.rowBounds.1 := by
  intro s
  have whole : s.Whole := ⟨by decide, by decide, rfl⟩
  have points : s.points = [(2, 0), (0, -1), (1, -1)] := by decide
  obtain ⟨-, order, -, -, -, inside, made, small⟩ := lit_points whole
  rw [points] at made
  exact ⟨whole, by decide, points, order, inside, made, small (by decide)⟩

end Chip8.Screen
