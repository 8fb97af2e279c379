import Chip8.Byte
import Chip8.Count
import Chip8.Screen.Basic

/-!
# Sprites

A sprite is a stack of bytes in memory, one byte for each row, with the most significant bit on
the left. Drawing toggles the pixel under every set bit; rows and columns wrap around the edges
of the active resolution. A pixel is toggled as its top-left cell says, and all its cells get
the new colour. The result tells whether some lit pixel went dark.

Drawing is an action in `Paint`: what was painted before a fault stays on the screen.
-/

namespace Chip8

/-- An action on the screen that may stop with a fault and keeps what it painted until then. -/
abbrev Paint := EStateM Fault Screen

namespace Paint

variable (d : Display)

/-- Give the cell that `i` names a colour. -/
def cell (i colour : Int) : Paint Unit := do
  let s ← get
  match Cells.position? s.cells.size i with
  | some p => set { s with cells := s.cells.set p colour }
  | none => throw .outOfRange

/-- Give the `k` by `k` cells below and to the right of cell `i` a colour. -/
def block (k i colour : Int) : Paint Unit :=
  (List.range k.toNat).forM fun dy =>
    (List.range k.toNat).forM fun dx =>
      cell (i + dy * d.hiresWidth + dx) colour

/-- Toggle the pixel whose top-left cell is `i`, and tell whether it was lit. -/
def toggle (k i : Int) : Paint Bool := do
  let c ← ofExcept ((← get).colourAt i)
  let lit := c != d.background
  block d k i (if lit then d.background else d.foreground)
  return lit

/-- Toggle the pixels under the set bits of one byte of a sprite, from left to right. The row
starts at cell `base`; the result tells whether some pixel went dark, or whether `hit` was set
before. -/
def spriteRow (k width base x : Int) (bits : Byte) (hit : Bool) : Paint Bool :=
  (List.range 8).foldlM (fun hit (col : Nat) => do
    if Byte.bit bits col then
      let column ← ofExcept (Fault.modulo (x + col) width)
      let wentDark ← toggle d k (base + column * k)
      return hit || wentDark
    else
      return hit) hit

/-- Draw the sprite of `height` rows at `index` in memory with its top-left pixel at `x` and
`y`, all of which wrap, and tell whether some pixel went dark. -/
def sprite (memory : Array Byte) (index x y height : Int) : Paint Bool := do
  let s ← get
  let k ← ofExcept (s.scale d)
  Count.foldM (fun hit row => do
    let place ← ofExcept (Fault.modulo (index + row) memory.size)
    let line ← ofExcept (Fault.modulo (y + row) (s.height d))
    match Cells.get? memory place with
    | some bits => spriteRow d k (s.width d) (Screen.corner d k 0 line) x bits hit
    | none => throw .outOfRange) 0 height.toNat false

end Paint

end Chip8
