import Chip8.Bitwise
import Chip8.Instruction.Basic

/-!
# Arithmetic

What the instructions `8XYN` compute. Sums, differences and left shifts are cut to a byte, and
the flag tells what was lost: a carry, a borrow or the bit shifted out.
-/

namespace Chip8

/-- One for true and zero for false. -/
def flag (b : Bool) : Int := if b then 1 else 0

namespace Operator

/-- The new value of register X, from the old values of X and Y. -/
def result (op : Operator) (x y : Int) : Int :=
  match op with
  | .copy => y
  | .or => Bitwise.or x y
  | .and => Bitwise.and x y
  | .xor => Bitwise.xor x y
  | .add => (x + y) % 256
  | .sub => (x - y) % 256
  | .subFrom => (y - x) % 256

/-- The flag, from the old values of X and Y, for the operators that set it. -/
def flag? (op : Operator) (x y : Int) : Option Int :=
  match op with
  | .add => some (flag (255 < x + y))
  | .sub => some (flag (x - y < 0))
  | .subFrom => some (flag (y - x < 0))
  | _ => none

end Operator

namespace Shift

/-- The new value of the register. -/
def result (dir : Shift) (x : Int) : Int :=
  match dir with
  | .right => x / 2
  | .left => 2 * x % 256

/-- The bit that is shifted out of the byte. -/
def lost (dir : Shift) (x : Int) : Int :=
  match dir with
  | .right => x % 2
  | .left => x / 128 % 2

end Shift

/-- A sum is its byte and its carry. -/
theorem add_result {x y : Int} (hx : 0 ≤ x ∧ x < 256) (hy : 0 ≤ y ∧ y < 256) :
    Operator.add.result x y + 256 * flag (255 < x + y) = x + y := by
  simp only [Operator.result, flag]
  split <;> simp_all <;> omega

end Chip8
