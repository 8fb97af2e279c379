import Chip8.Fault

/-!
# Capacity

How large a row of cells may be. A size is a machine word, and a row takes up only so many bytes.

  * `Capacity.reserve` : the number of cells of a row, if there can be a row of that size.
-/

namespace Chip8.Capacity

/-- Sizes lie between this number's opposite and, without it, this number. -/
def wordLimit : Int := 9223372036854775808

/-- How many bytes a row may take up. -/
def byteLimit : Int := 68719476736

/-- The number of cells of a row of size `n` whose cells take `width` bytes each. A row of
negative size has none. -/
def reserve (width n : Int) : Except Fault Nat :=
  if n < -wordLimit ∨ wordLimit ≤ n then .error .sizeOutOfRange
  else if byteLimit < n * width then .error .outOfMemory
  else .ok n.toNat

theorem reserve_of_le {width n : Int} (h₁ : -wordLimit ≤ n) (h₂ : n < wordLimit)
    (h : n * width ≤ byteLimit) : reserve width n = .ok n.toNat := by
  rw [reserve, if_neg (by omega), if_neg (by omega)]

end Chip8.Capacity
