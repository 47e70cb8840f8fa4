/-!
# Cells

A fixed number of cells, named by the numbers below it, so that there always is a cell to read or
to write.  Hexadecimal digits name sixteen cells.
-/

namespace Chip8

abbrev Cells (α : Type) (n : Nat) := Vector α n

/-- The last hexadecimal digit of a number. -/
def lastDigit (n : Nat) : Fin 16 := ⟨n % 16, Nat.mod_lt n (Nat.zero_lt_succ 15)⟩

namespace Cells

variable {α : Type} {n : Nat}

/-- One cell replaced. -/
def put (cells : Cells α n) (place : Fin n) (value : α) : Cells α n :=
  Vector.set cells place value place.isLt

/-! ## Lemmas -/

theorem ext_get {cells others : Cells α n} (h : ∀ place, cells.get place = others.get place) :
    cells = others :=
  Vector.ext fun i hi => h ⟨i, hi⟩

theorem get_ofFn (f : Fin n → α) (place : Fin n) : Vector.get (Vector.ofFn f) place = f place := by
  show (Vector.ofFn f)[place.val] = f place
  simp

/-- A put changes its own cell and no other. -/
theorem get_put (cells : Cells α n) (place other : Fin n) (value : α) :
    (cells.put place value).get other = if place = other then value else cells.get other := by
  show (Vector.set cells place value place.isLt)[other.val] = if _ then _ else cells[other.val]
  simp [Vector.getElem_set, Fin.ext_iff]

end Cells

end Chip8
