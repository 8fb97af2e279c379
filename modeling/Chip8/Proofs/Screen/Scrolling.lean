import Chip8.Proofs.Screen.Painting
import Chip8.Proofs.Screen.Pixels

/-!
# What scrolling does to the cells

Scrolling replaces two overlapping stretches of the grid. Together they put dark cells in front
of the cells that stay (`Screen.scroll_eq_append`), so every cell comes from a fixed distance
before it (`Screen.getElem?_scrolled`). The distance is a number of rows, so no row is sheared, and
the distances of two scrolls add up until the whole grid is dark (`Screen.scroll_moves_rows`). None
of this depends on the geometry or on the colours of the cells.
-/

namespace Chip8

namespace Cells

variable {α : Type}

/-- A stretch from the front on is what its end leaves of the row. -/
theorem slice_front {cells : Array α} {j : Nat} (hj : j ≤ cells.size) :
    slice cells 0 j = cells.extract 0 j := by
  rw [slice, bound_zero, bound_natCast hj]

/-- A stretch at the front is replaced by what comes in there. -/
theorem splice_front {cells new : Array α} {j : Nat} (hj : j ≤ cells.size) :
    splice cells 0 j new = new ++ cells.extract j cells.size := by
  simp [splice, bound_zero, bound_natCast hj]

/-- An empty stretch at the end is where new cells are added. -/
theorem splice_back {cells new : Array α} {i : Nat} (hi : i ≤ cells.size) :
    splice cells i cells.size new = cells.extract 0 i ++ new := by
  simp [splice, bound_natCast hi, bound_natCast (Nat.le_refl cells.size), Nat.max_eq_right hi]

/-- Moving the cells back by `m` and then writing `m` new ones in front. -/
theorem splice_splice {cells : Array α} (new : Array α) {m : Nat} (hm : m ≤ cells.size) :
    splice (splice cells m cells.size (slice cells 0 (cells.size - m : Nat))) 0 m new
      = new ++ cells.extract 0 (cells.size - m) := by
  have hsize : (cells.extract 0 m ++ cells.extract 0 (cells.size - m)).size = cells.size := by
    simp only [Array.size_append, Array.size_extract]
    omega
  have hback : (cells.extract 0 m ++ cells.extract 0 (cells.size - m)).extract m cells.size
      = cells.extract 0 (cells.size - m) := by
    rw [Array.extract_append, Array.size_extract]
    simp [Nat.min_eq_left hm, Nat.min_eq_right hm]
  have hroom : m ≤ (cells.extract 0 m ++ cells.extract 0 (cells.size - m)).size := by
    rwa [hsize]
  rw [slice_front (Nat.sub_le ..), splice_back hm, splice_front hroom, hsize, hback]

end Cells

namespace Screen

variable {d : Display} {s : Screen} {k n width height : Nat}

/-- Scrolling puts dark rows in front of the rows that stay, and never fails on a full grid. -/
theorem scroll_eq_append (hk : s.scale d = .ok k) (hwidth : d.hiresWidth = width)
    (hheight : d.hiresHeight = height) (hsize : s.cells.size = height * width) :
    s.scroll d n = .ok { s with
      cells := Array.replicate (min (n * k) height * width) d.background
        ++ s.cells.extract 0 (s.cells.size - min (n * k) height * width) } := by
  obtain ⟨m, hm⟩ : ∃ m, min (n * k) height * width = m := ⟨_, rfl⟩
  have hle : m ≤ s.cells.size := by
    rw [hsize, ← hm]
    exact Nat.mul_le_mul_right _ (Nat.min_le_right ..)
  have hshift : min ((n : Int) * k) d.hiresHeight * d.hiresWidth = m := by
    have hmin : min ((n : Int) * k) height = (min (n * k) height : Nat) := by
      rw [← Int.natCast_mul]
      omega
    rw [hwidth, hheight, hmin, ← Int.natCast_mul, hm]
  have hrest : (s.cells.size : Int) - m = (s.cells.size - m : Nat) := by omega
  rw [scroll_eq hk, hshift, hm]
  dsimp only
  split
  · -- no rows come in
    obtain rfl : m = 0 := by omega
    simp
  · have hin : incoming s.cells.size m = .ok m := by
      rw [incoming, if_pos ⟨by omega, by omega⟩]
      rfl
    rw [hin, hrest]
    refine congrArg (fun cells => Except.ok { s with cells := cells }) ?_
    exact Cells.splice_splice _ hle

/-- As many cells come in as go out. -/
theorem size_scrolled (hsize : s.cells.size = height * width) :
    (Array.replicate (min (n * k) height * width) d.background
      ++ s.cells.extract 0 (s.cells.size - min (n * k) height * width)).size = s.cells.size := by
  have hle := Nat.mul_le_mul_right width (Nat.min_le_right (n * k) height)
  simp only [Array.size_append, Array.size_replicate, Array.size_extract]
  omega

/-- A cell comes from the row that many rows above it, or is dark if there is none. -/
theorem getElem?_scrolled {i : Nat} (hi : i < s.cells.size) (m : Nat) :
    (Array.replicate m d.background ++ s.cells.extract 0 (s.cells.size - m))[i]?
      = if i < m then some d.background else s.cells[i - m]? := by
  rw [Array.getElem?_append, Array.size_replicate]
  split
  · rw [Array.getElem?_replicate, if_pos (by assumption)]
  · rw [Array.getElem?_extract, if_pos (by omega), Nat.zero_add]

/-- Pixels are a whole number of cells wide, possibly none. -/
theorem exists_scale (hhires : 0 ≤ d.hiresWidth) (hlores : 0 < d.loresWidth) (s : Screen) :
    ∃ k : Nat, s.scale d = .ok k := by
  rw [scale]
  split
  · exact ⟨1, rfl⟩
  · obtain ⟨k, hk⟩ := Int.eq_ofNat_of_zero_le (Int.fdiv_nonneg hhires (Int.le_of_lt hlores))
    exact ⟨k, by rw [Display.loresScale, Fault.quotient, if_neg (Int.ne_of_gt hlores), hk]⟩

/-- The cells that come in are those of the first rows. -/
theorem lt_incoming_rows_iff {row col : Nat} (hrow : row < height) (hcol : col < width) :
    row * width + col < min n height * width ↔ row < n := by
  constructor
  · intro hlt
    have hline : row * width < min n height * width := by omega
    have hmin := Nat.lt_of_mul_lt_mul_right hline
    omega
  · intro hn
    exact mul_add_lt (by omega) hcol

/-- A cell that is not new comes from the same column, that many rows above. -/
theorem sub_incoming_rows {row col : Nat} (hrow : row < height) (hn : n ≤ row) :
    row * width + col - min n height * width = (row - n) * width + col := by
  have hle : n * width ≤ row * width := Nat.mul_le_mul_right width hn
  rw [Nat.min_eq_left (by omega), Nat.sub_mul]
  omega

/-- Rows that come in twice are those that come in at once, up to the whole grid. -/
theorem incoming_rows_add (a b height width : Nat) :
    min (a + b) height * width
      = min (min a height * width + min b height * width) (height * width) := by
  rw [← Nat.add_mul, Nat.mul_min_mul_right]
  congr 1
  omega

/-- Moving the cells down twice. -/
theorem scrolled_scrolled (hsize : s.cells.size = height * width) {t : Screen} (a b : Nat)
    (ht : t.cells = Array.replicate (min (a * k) height * width) d.background
      ++ s.cells.extract 0 (s.cells.size - min (a * k) height * width)) :
    Array.replicate (min (b * k) height * width) d.background
        ++ t.cells.extract 0 (t.cells.size - min (b * k) height * width)
      = Array.replicate (min ((a + b) * k) height * width) d.background
        ++ s.cells.extract 0 (s.cells.size - min ((a + b) * k) height * width) := by
  have hsize₁ : t.cells.size = s.cells.size := by rw [ht, size_scrolled hsize]
  have hadd := incoming_rows_add (a * k) (b * k) height width
  rw [← Nat.add_mul, ← hsize] at hadd
  refine Array.ext_getElem? fun i => ?_
  by_cases hi : i < s.cells.size
  · rw [getElem?_scrolled (hsize₁ ▸ hi), getElem?_scrolled hi, ht]
    by_cases hfirst : i < min (b * k) height * width
    · rw [if_pos hfirst, if_pos (by omega)]
    · rw [if_neg hfirst, getElem?_scrolled (by omega)]
      by_cases hsecond : i - min (b * k) height * width < min (a * k) height * width
      · rw [if_pos hsecond, if_pos (by omega)]
      · -- such a cell is there, so the sum does not reach beyond the grid
        rw [if_neg hsecond, if_neg (by omega)]
        congr 1
        omega
  · rw [Array.getElem?_eq_none, Array.getElem?_eq_none]
    · rw [size_scrolled hsize]
      omega
    · have hsize₂ := size_scrolled (d := d) (n := b) (k := k) (hsize₁.trans hsize)
      rw [hsize₂]
      omega

/-- **What scrolling does.** On a full grid of any size and any colours it never fails, and it
    keeps the resolution and the number of cells. Every row gets the cells of the row that many
    pixels above it, or is dark if there is none. Scrolling twice is scrolling by the sum. -/
theorem scroll_moves_rows (hwidth : 1 ≤ d.hiresWidth) (hheight : 1 ≤ d.hiresHeight)
    (hlores : 1 ≤ d.loresWidth) (hsize : (s.cells.size : Int) = d.hiresWidth * d.hiresHeight) :
    ∃ k width height : Nat,
      s.scale d = .ok k ∧ d.hiresWidth = width ∧ d.hiresHeight = height ∧
      (∀ n : Nat, ∃ s', s.scroll d n = .ok s' ∧ s'.extended = s.extended ∧
        s'.cells.size = s.cells.size ∧
        (∀ row < height, ∀ col < width, s'.cells[row * width + col]? =
          if row < n * k then some d.background else s.cells[(row - n * k) * width + col]?) ∧
        (height ≤ n * k → s'.cells = Array.replicate s.cells.size d.background)) ∧
      ∀ a b : Nat, ∃ s₁ s₂, s.scroll d a = .ok s₁ ∧ s₁.scroll d b = .ok s₂ ∧
        s.scroll d (a + b) = .ok s₂ := by
  obtain ⟨width, hw⟩ := Int.eq_ofNat_of_zero_le (show 0 ≤ d.hiresWidth by omega)
  obtain ⟨height, hh⟩ := Int.eq_ofNat_of_zero_le (show 0 ≤ d.hiresHeight by omega)
  obtain ⟨k, hk⟩ := exists_scale (d := d) (by omega) (by omega) s
  -- from here on the screen is a grid of natural numbers of rows and columns
  have hgrid : s.cells.size = height * width := by
    rw [hw, hh, ← Int.natCast_mul, Nat.mul_comm] at hsize
    exact Int.ofNat.inj hsize
  refine ⟨k, width, height, hk, hw, hh, fun n => ?_, fun a b => ?_⟩
  · have hcells := size_scrolled (d := d) (n := n) (k := k) hgrid
    refine ⟨_, scroll_eq_append hk hw hh hgrid, rfl, hcells, fun row hrow col hcol => ?_,
      fun hall => ?_⟩
    · have hi : row * width + col < s.cells.size := hgrid ▸ mul_add_lt hrow hcol
      rw [getElem?_scrolled hi]
      by_cases hn : row < n * k
      · rw [if_pos hn, if_pos ((lt_incoming_rows_iff hrow hcol).2 hn)]
      · rw [if_neg hn, if_neg (mt (lt_incoming_rows_iff hrow hcol).1 hn),
          sub_incoming_rows hrow (Nat.le_of_not_lt hn)]
    · dsimp only
      rw [Nat.min_eq_right hall, ← hgrid, Nat.sub_self, Array.extract_zero, Array.append_empty]
  · have hgrid₁ := (size_scrolled (d := d) (n := a) (k := k) hgrid).trans hgrid
    refine ⟨_, _, scroll_eq_append hk hw hh hgrid, scroll_eq_append hk hw hh hgrid₁, ?_⟩
    have hsum := scroll_eq_append (n := a + b) hk hw hh hgrid
    rw [scrolled_scrolled hgrid a b rfl]
    exact_mod_cast hsum

/-- A grid of five by three cells, where a pixel of low resolution is two cells wide. -/
theorem scroll_moves_rows_odd :
    let d : Display := { hiresWidth := 5, hiresHeight := 3, loresWidth := 2 }
    let s : Screen := ⟨#[1, 2, 3, 4, 5, 6, 7, 8, 9, 10, 11, 12, 13, 14, 15], false⟩
    1 ≤ d.hiresWidth ∧ 1 ≤ d.hiresHeight ∧ 1 ≤ d.loresWidth ∧
      (s.cells.size : Int) = d.hiresWidth * d.hiresHeight ∧
      ∃ s', s.scroll d 1 = .ok s' ∧ s'.cells[1 * 5 + 4]? = some d.background ∧
        s'.cells[2 * 5 + 3]? = some 4 := by
  intro d s
  have hwidth : 1 ≤ d.hiresWidth := by decide
  have hheight : 1 ≤ d.hiresHeight := by decide
  have hlores : 1 ≤ d.loresWidth := by decide
  have hgrid : (s.cells.size : Int) = d.hiresWidth * d.hiresHeight := by decide
  obtain ⟨k, width, height, hk, hw, hh, hrows, _⟩ :=
    scroll_moves_rows hwidth hheight hlores hgrid
  obtain rfl : k = 2 := (Int.ofNat.inj (Except.ok.inj hk)).symm
  obtain rfl : width = 5 := (Int.ofNat.inj hw).symm
  obtain rfl : height = 3 := (Int.ofNat.inj hh).symm
  obtain ⟨s', hs', _, _, hcells, _⟩ := hrows 1
  exact ⟨hwidth, hheight, hlores, hgrid, s', hs', hcells 1 (by decide) 4 (by decide),
    hcells 2 (by decide) 3 (by decide)⟩

end Screen

end Chip8
