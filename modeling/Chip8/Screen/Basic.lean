import Chip8.Capacity
import Chip8.Cells
import Chip8.Config

/-!
# The screen

A screen is a row-major grid of coloured cells, always as fine as high resolution needs, and a
switch that says which resolution the program sees. In low resolution a pixel is a square block
of cells, and its top-left corner stands for it, so a picture keeps its size when a program
switches. The geometry and the two colours come from a `Display`.

  * `Screen.blank`, `Screen.create` : the screen of a new machine,
  * `Screen.width`, `Screen.height`, `Screen.scale` : the active resolution,
  * `Screen.pixel`  : whether a pixel of the active resolution is lit,
  * `Screen.clear`, `Screen.reset` : the blank screen, with and without leaving high resolution,
  * `Screen.scroll` : the picture moved down.
-/

namespace Chip8

/-- The cells of the screen, row by row, and whether high resolution is on. -/
structure Screen where
  cells : Array Int
  extended : Bool := false
  deriving DecidableEq, Repr

namespace Screen

variable (d : Display)

/-- How many bytes a cell takes up. -/
def cellWidth : Int := 8

/-- The number of cells behind the screen. -/
def area : Nat := (d.hiresWidth * d.hiresHeight).toNat

/-- The screen of a machine that has drawn nothing. -/
def blank : Screen := ⟨Array.replicate (area d) d.background, false⟩

/-- The same, if there is room for its cells. -/
def create : Except Fault Screen := do
  let _ ← Capacity.reserve cellWidth (d.hiresWidth * d.hiresHeight)
  return blank d

/-- The number of pixels in a row of the active resolution. -/
def width (s : Screen) : Int := if s.extended then d.hiresWidth else d.loresWidth

/-- The number of rows of pixels of the active resolution. -/
def height (s : Screen) : Int := if s.extended then d.hiresHeight else d.loresHeight

/-- How many cells wide and high a pixel of the active resolution is. -/
def scale (s : Screen) : Except Fault Int := if s.extended then .ok 1 else d.loresScale

/-- The cell at the top left of a pixel whose cells form blocks of `k` by `k`. -/
def corner (k x y : Int) : Int := y * k * d.hiresWidth + x * k

/-- The colour of a cell. -/
def colourAt (s : Screen) (i : Int) : Except Fault Int :=
  match Cells.get? s.cells i with
  | some c => .ok c
  | none => .error .outOfRange

/-- Whether a pixel of the active resolution is lit. -/
def pixel (s : Screen) (x y : Int) : Except Fault Bool := do
  let k ← s.scale d
  let c ← s.colourAt (corner d k x y)
  return c != d.background

/-- The screen in high or low resolution, with the same cells. -/
def setExtended (s : Screen) (on : Bool) : Screen := { s with extended := on }

/-- The screen with all cells dark. -/
def clear (s : Screen) : Screen :=
  { s with cells := Array.replicate s.cells.size d.background }

/-- The dark screen in low resolution. -/
def reset (s : Screen) : Screen := (s.clear d).setExtended false

/-- How many dark cells come in when a row of `total` cells moves by `shift`. Those that take the
place of cells of the row always have room. -/
def incoming (total shift : Int) : Except Fault Nat :=
  if 0 ≤ shift ∧ shift ≤ total then .ok shift.toNat else Capacity.reserve cellWidth shift

/-- The screen with the picture moved down by `n` pixels of the active resolution. Rows that
leave at the bottom are lost, and dark rows come in at the top. -/
def scroll (n : Int) (s : Screen) : Except Fault Screen := do
  let k ← s.scale d
  let shift := min (n * k) d.hiresHeight * d.hiresWidth
  if shift = 0 then
    return s
  let total : Int := s.cells.size
  let count ← incoming total shift
  let moved := Cells.splice s.cells shift total (Cells.slice s.cells 0 (total - shift))
  return { s with
    cells := Cells.splice moved 0 shift (Array.replicate count d.background) }

theorem size_clear (s : Screen) : (s.clear d).cells.size = s.cells.size := by
  simp [clear]

end Screen

end Chip8
