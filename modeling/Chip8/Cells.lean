/-!
# Rows of cells addressed from either end

Memory, registers, the call stack and the screen are arrays of cells. A cell is named by an
integer: `0, 1, 2, …` count from the front and `-1, -2, …` from the back. A whole stretch is
named by two such integers, each clamped to the row.

  * `Cells.position?` : the cell an integer names, if it names one,
  * `Cells.get?`      : what is in it,
  * `Cells.bound`     : the clamped end of a stretch,
  * `Cells.slice`     : the cells of a stretch,
  * `Cells.splice`    : the row with a stretch replaced, which may change its length,
  * `Cells.overwrite` : the row with new cells written over it from some place on.
-/

namespace Chip8.Cells

variable {α : Type}

/-- The cell that `i` names in a row of `size` cells; a negative `i` counts from the back. -/
def position? (size : Nat) (i : Int) : Option (Fin size) :=
  let j := if i < 0 then i + size else i
  if h : 0 ≤ j ∧ j < size then some ⟨j.toNat, by omega⟩ else none

/-- The content of the cell that `i` names. -/
def get? (cells : Array α) (i : Int) : Option α :=
  (position? cells.size i).map (cells[·])

/-- The end of a stretch that `i` names, clamped to a row of `size` cells. -/
def bound (size : Nat) (i : Int) : Nat :=
  let j := if i < 0 then i + size else i
  min j.toNat size

/-- The cells from `start` up to, and without, `stop`. -/
def slice (cells : Array α) (start stop : Int) : Array α :=
  cells.extract (bound cells.size start) (bound cells.size stop)

/-- The row with the stretch from `start` to `stop` replaced by `new`. An empty or reversed
stretch is an insertion at `start`. -/
def splice (cells : Array α) (start stop : Int) (new : Array α) : Array α :=
  let first := bound cells.size start
  let last := max first (bound cells.size stop)
  cells.extract 0 first ++ new ++ cells.extract last cells.size

/-- The row with `new` written over it from `start` on. Where `new` reaches beyond the end, the
row grows. -/
def overwrite (cells : Array α) (start : Int) (new : Array α) : Array α :=
  splice cells start (start + new.size) new

/-- An integer inside the row names the cell with that number. -/
theorem position?_natCast {size i : Nat} (h : i < size) :
    position? size i = some ⟨i, h⟩ := by
  have hi : ¬ (i : Int) < 0 := by omega
  simp [position?, hi, h]

/-- An integer behind the end of the row names no cell. -/
theorem position?_of_le {size i : Nat} (h : size ≤ i) : position? size i = none := by
  have hi : ¬ (i : Int) < 0 := by omega
  have hj : ¬ i < size := by omega
  simp [position?, hi, hj]

/-- An integer that is not negative looks up the cell with that number, if there is one. -/
theorem get?_natCast (cells : Array α) (i : Nat) : get? cells i = cells[i]? := by
  by_cases h : i < cells.size
  · simp [get?, position?_natCast h, h]
  · have hi : ¬ (i : Int) < 0 := by omega
    simp [get?, position?, hi, h]

/-- Overwriting a stretch that lies inside the row keeps the length. -/
theorem size_overwrite {cells new : Array α} {start : Nat} (h : start + new.size ≤ cells.size) :
    (overwrite cells start new).size = cells.size := by
  have h₁ : ¬ (start : Int) < 0 := by omega
  have h₂ : ¬ (start : Int) + new.size < 0 := by omega
  simp only [overwrite, splice, bound, h₁, h₂, if_false, Array.size_append, Array.size_extract]
  omega

theorem bound_le (size : Nat) (i : Int) : bound size i ≤ size := Nat.min_le_right ..

/-- An end inside the row stays where it is. -/
theorem bound_natCast {size i : Nat} (h : i ≤ size) : bound size i = i := by
  have hi : ¬ (i : Int) < 0 := by omega
  simp only [bound, hi, if_false]
  omega

theorem bound_zero (size : Nat) : bound size 0 = 0 := bound_natCast (Nat.zero_le size)

theorem size_splice (cells : Array α) (start stop : Int) (new : Array α) :
    (splice cells start stop new).size
      = bound cells.size start + new.size
        + (cells.size - max (bound cells.size start) (bound cells.size stop)) := by
  have h₁ := bound_le cells.size start
  have h₂ := bound_le cells.size stop
  simp only [splice, Array.size_append, Array.size_extract]
  omega

/-- What is read from a row after a stretch inside it was overwritten. -/
theorem getElem?_overwrite {cells new : Array α} {start : Nat}
    (h : start + new.size ≤ cells.size) (i : Nat) :
    (overwrite cells start new)[i]? =
      if start ≤ i ∧ i < start + new.size then new[i - start]? else cells[i]? := by
  have hstop : bound cells.size (start + new.size : Int) = start + new.size :=
    bound_natCast h
  simp only [overwrite, splice, bound_natCast (show start ≤ cells.size by omega), hstop,
    Array.getElem?_append, Array.getElem?_extract, Array.size_append, Array.size_extract]
  grind

theorem mem_of_mem_extract {cells : Array α} {first last : Nat} {c : α}
    (h : c ∈ cells.extract first last) : c ∈ cells := by
  obtain ⟨k, _, rfl⟩ := Array.mem_extract_iff_getElem.1 h
  exact Array.getElem_mem _

/-- A stretch shows cells of the row only. -/
theorem mem_of_mem_slice {cells : Array α} {start stop : Int} {c : α}
    (h : c ∈ slice cells start stop) : c ∈ cells :=
  mem_of_mem_extract h

/-- Replacing a stretch brings in the new cells only. -/
theorem mem_of_mem_splice {cells new : Array α} {start stop : Int} {c : α}
    (h : c ∈ splice cells start stop new) : c ∈ cells ∨ c ∈ new := by
  simp only [splice, Array.mem_append] at h
  rcases h with (h | h) | h
  · exact Or.inl (mem_of_mem_extract h)
  · exact Or.inr h
  · exact Or.inl (mem_of_mem_extract h)

end Chip8.Cells
