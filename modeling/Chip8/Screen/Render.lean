import Chip8.Count
import Chip8.Screen.Basic

/-!
# The screen as text

A picture of the active resolution: one line for each row of pixels, one mark for each pixel.
-/

namespace Chip8.Screen

variable (d : Display)

/-- One row of pixels, written with `on` for a lit and `off` for a dark one. -/
def renderRow (on off : String) (s : Screen) (y : Int) : Except Fault String := do
  let marks ← Count.mapM (fun x => do return if ← s.pixel d x y then on else off) 0
    (s.width d).toNat
  return String.join marks.toList

/-- All rows of pixels, from top to bottom, with line breaks between them. -/
def render (on off : String) (s : Screen) : Except Fault String := do
  let rows ← Count.mapM (fun y => s.renderRow d on off y) 0 (s.height d).toNat
  return "\n".intercalate rows.toList

end Chip8.Screen
