import Chip8.Machine.Screen

/-!
# Layout on a terminal

The screen goes to the top left corner of the terminal, with a border of one character around it,
and the status line goes below it.  Both are cut to what the terminal has room for.

Points are drawn on a canvas whose rows count upwards, so row `y` of the screen is drawn at `-y`.
-/

namespace Chip8

/-- A rectangle of character cells. -/
structure Area where
  x : Nat
  y : Nat
  width : Nat
  height : Nat
  deriving DecidableEq, Repr

namespace Area

/-- The terminal of a size. -/
def terminal (width height : Nat) : Area := ⟨0, 0, width, height⟩

/-- The part of an area that lies in another.  It may be empty. -/
def inter (a b : Area) : Area :=
  let x := max a.x b.x
  let y := max a.y b.y
  ⟨x, y, min (a.x + a.width) (b.x + b.width) - x, min (a.y + a.height) (b.y + b.height) - y⟩

/-- Whether two areas share a cell. -/
def meets (a b : Area) : Bool :=
  a.x < b.x + b.width && b.x < a.x + a.width && a.y < b.y + b.height && b.y < a.y + a.height

end Area

namespace Screen

/-- Where the screen and the status line go on a terminal; the line needs a cell at least. -/
def layout (s : Screen) (terminal : Area) : Area × Option Area :=
  let frame : Area := ⟨0, 0, s.width.toNat + 2, s.height.toNat + 2⟩
  let line : Area := ⟨0, frame.height, frame.width, 1⟩
  (frame.inter terminal, if line.meets terminal then some (line.inter terminal) else none)

/-- The columns of the canvas, from the first to the last. -/
def columnBounds (s : Screen) : Int × Int := (0, s.width.toNat - 1)

/-- The rows of the canvas, from the lowest to the highest. -/
def rowBounds (s : Screen) : Int × Int := (-(s.height.toNat - 1), 0)

/-- The screen as text, a line for each row and two characters for each pixel. -/
def lines (s : Screen) : List String :=
  (List.range s.height.toNat).map fun y =>
    String.join ((List.range s.width.toNat).map fun x =>
      if s.pixel? x y = some true then "██" else "  ")

/-- The lit pixels as points of the canvas. -/
def points (s : Screen) : List (Int × Int) := s.lit.map fun (x, y) => (x, -y)

end Screen

end Chip8
