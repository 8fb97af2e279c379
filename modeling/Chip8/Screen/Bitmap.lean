import Chip8.Byte
import Chip8.Screen.Basic

/-!
# Pictures

A `Bitmap` is a picture in the pixels of one resolution: dark and lit, without cells, colours or
blocks. The operations of the screen have a plain meaning on pictures, and `Bitmap.cells` is how
a screen holds a picture.

  * `Bitmap.toggle` : one pixel changed from dark to lit or back,
  * `Bitmap.draw`   : pixels toggled one after the other, noting whether a lit one went dark,
  * `Bitmap.scroll` : the picture moved down,
  * `spritePixels`  : the pixels under the set bits of a sprite.
-/

namespace Chip8

/-- Which pixels are lit, by row and column. -/
abbrev Bitmap := Nat → Nat → Bool

namespace Bitmap

/-- The picture with no pixel lit. -/
def dark : Bitmap := fun _ _ => false

/-- The picture with one pixel changed. -/
def toggle (b : Bitmap) (place : Nat × Nat) : Bitmap :=
  fun row col => if (row, col) = place then !b row col else b row col

/-- The picture with pixels toggled in turn, and whether one of them was lit at its turn or `hit`
was set before. -/
def draw (places : List (Nat × Nat)) (hit : Bool) (b : Bitmap) : Bool × Bitmap :=
  match places with
  | [] => (hit, b)
  | p :: rest => draw rest (hit || b p.1 p.2) (b.toggle p)

/-- The picture moved down by `n` rows, with dark rows at the top. -/
def scroll (n : Nat) (b : Bitmap) : Bitmap :=
  fun row col => if row < n then false else b (row - n) col

/-- The cells of a screen whose pixels are blocks of `k` by `k` cells and show a picture. -/
def cells (d : Display) (k : Nat) (b : Bitmap) : Array Int :=
  Array.ofFn fun i : Fin (Screen.area d) =>
    let width := d.hiresWidth.toNat
    if b (i / width / k) (i % width / k) then d.foreground else d.background

/-- A pixel toggled twice is as before. -/
theorem toggle_toggle (b : Bitmap) (p : Nat × Nat) : (b.toggle p).toggle p = b := by
  funext row col
  simp only [toggle]
  split <;> simp

/-- The order of two toggles does not matter. -/
theorem toggle_comm (b : Bitmap) (p q : Nat × Nat) :
    (b.toggle p).toggle q = (b.toggle q).toggle p := by
  funext row col
  simp only [toggle]
  split <;> split <;> rfl

/-- Drawing some pixels and then others is drawing all of them. -/
theorem draw_append (ps qs : List (Nat × Nat)) (hit : Bool) (b : Bitmap) :
    draw (ps ++ qs) hit b = draw qs (draw ps hit b).1 (draw ps hit b).2 := by
  induction ps generalizing hit b with
  | nil => rfl
  | cons p ps ih => exact ih ..

end Bitmap

/-- The pixels under the set bits of the sprite of `height` rows at `index` in memory, by row and
column, for a picture of `rows` by `cols` pixels: row by row, and from left to right. -/
def spritePixels (memory : Array Byte) (rows cols : Nat) (index x y : Int) (height : Nat) :
    List (Nat × Nat) :=
  (List.range height).flatMap fun (row : Nat) =>
    let bits := memory[((index + row) % memory.size).toNat]?.getD 0
    ((List.range 8).filter (Byte.bit bits)).map fun (col : Nat) =>
      (((y + row) % rows).toNat, ((x + col) % cols).toNat)

end Chip8
