import Chip8.Proofs.Screen.Refinement
import Mathlib.Data.Int.ModEq
import Mathlib.Data.List.Nodup

/-!
# What one sprite does

The pixels under the bits of a sprite are all different as long as the sprite has no more rows than
the screen (`Sprite.nodup_pixels`). Each is then flipped once, as it was before anything was drawn,
so what is noted while drawing is what a comparison of the screens before and after shows
(`Screen.Tiled.drawn`). None of this asks what the cells hold: a pixel may have cells of several
colours.

  * `Sprite` : a sprite to be drawn, with its place in memory and on the screen,
  * `Sprite.bit`, `Sprite.pixel` : a bit of it, and the pixel under the bit,
  * `Screen.Drawn` : what is on the screen afterwards, and what is answered.
-/

namespace Chip8

/-- Numbers that are not too far apart stay apart when they wrap. -/
theorem wrap_inj {a : Int} {i j n : Nat} (hi : i < n) (hj : j < n)
    (h : ((a + i) % n).toNat = ((a + j) % n).toNat) : i = j := by
  have hn : (0 : Int) < n := by omega
  have hi₀ := Int.emod_nonneg (a + i) hn.ne'
  have hj₀ := Int.emod_nonneg (a + j) hn.ne'
  have hmod : a + i ≡ a + j [ZMOD n] := by
    show (a + i) % n = (a + j) % n
    omega
  have hsame : i ≡ j [MOD n] := Int.natCast_modEq_iff.1 (hmod.add_left_cancel' a)
  exact hsame.eq_of_lt_of_lt hi hj

/-- A sprite to be drawn: where its bytes are, where its top-left pixel goes and how many rows it
    has. -/
structure Sprite where
  memory : Array Byte
  index : Int
  x : Int
  y : Int
  height : Int

namespace Sprite

variable {rows cols : Nat} {sp : Sprite}

/-- Draw the sprite, and tell whether some pixel went dark. -/
def paint (d : Display) (sp : Sprite) : Paint Bool :=
  Paint.sprite d sp.memory sp.index sp.x sp.y sp.height

/-- A bit of the sprite. Its rows follow each other in memory, which wraps. -/
def bit (sp : Sprite) (row col : Nat) : Bool :=
  Byte.bit (sp.memory[((sp.index + row) % sp.memory.size).toNat]?.getD 0) col

/-- The pixel under a bit of the sprite, by row and column. Both wrap. -/
def pixel (rows cols : Nat) (sp : Sprite) (row col : Nat) : Nat × Nat :=
  (((sp.y + row) % rows).toNat, ((sp.x + col) % cols).toNat)

/-- The pixels under the set bits of the sprite, in the order in which they are drawn. -/
def pixels (rows cols : Nat) (sp : Sprite) : List (Nat × Nat) :=
  spritePixels sp.memory rows cols sp.index sp.x sp.y sp.height.toNat

/-- The pixels of a sprite are those under its set bits. -/
theorem mem_pixels {place : Nat × Nat} : place ∈ sp.pixels rows cols ↔
    ∃ row col : Nat, (row : Int) < sp.height ∧ col < 8 ∧ sp.bit row col = true ∧
      sp.pixel rows cols row col = place := by
  simp only [pixels, spritePixels, List.mem_flatMap, List.mem_map, List.mem_filter, List.mem_range]
  constructor
  · rintro ⟨row, hrow, col, ⟨hcol, hbit⟩, hplace⟩
    exact ⟨row, col, by omega, hcol, hbit, hplace⟩
  · rintro ⟨row, col, hrow, hcol, hbit, hplace⟩
    exact ⟨row, by omega, col, ⟨hcol, hbit⟩, hplace⟩

/-- A sprite that is not taller and not wider than the screen meets no pixel twice. -/
theorem nodup_pixels (hrows : sp.height ≤ rows) (hcols : 8 ≤ cols) :
    (sp.pixels rows cols).Nodup := by
  rw [pixels, spritePixels, List.nodup_flatMap]
  constructor
  · -- within a row
    intro row _
    refine List.Nodup.map_on ?_ (List.nodup_range.filter _)
    intro col hcol col' hcol' heq
    rw [List.mem_filter, List.mem_range] at hcol hcol'
    exact wrap_inj (by omega) (by omega) (Prod.mk.inj heq).2
  · -- from row to row
    refine List.nodup_range.pairwise_of_forall_ne fun row hrow row' hrow' hne => ?_
    rw [List.mem_range] at hrow hrow'
    rintro place hplace hplace'
    obtain ⟨_, _, rfl⟩ := List.mem_map.1 hplace
    obtain ⟨_, _, heq⟩ := List.mem_map.1 hplace'
    exact hne (wrap_inj (by omega) (by omega) (Prod.mk.inj heq).1.symm)

/-- A pixel of such a sprite is drawn exactly if the bit above it is set. -/
theorem pixel_mem_pixels_iff (hrows : sp.height ≤ rows) (hcols : 8 ≤ cols) {row col : Nat}
    (hrow : (row : Int) < sp.height) (hcol : col < 8) :
    sp.pixel rows cols row col ∈ sp.pixels rows cols ↔ sp.bit row col = true := by
  constructor
  · intro hmem
    obtain ⟨row', col', hrow', hcol', hbit, heq⟩ := mem_pixels.1 hmem
    obtain rfl : row' = row := wrap_inj (by omega) (by omega) (Prod.mk.inj heq).1
    obtain rfl : col' = col := wrap_inj (by omega) (by omega) (Prod.mk.inj heq).2
    exact hbit
  · intro hbit
    exact mem_pixels.2 ⟨row, col, hrow, hcol, hbit, rfl⟩

end Sprite

namespace Screen

variable {d : Display} {k rows cols : Nat} {s : Screen} {sp : Sprite}

/-- The number of the cell that is so many lines below and so many columns right of the first cell
    of a pixel. -/
def cellOf (d : Display) (k : Nat) (place : Nat × Nat) (dy dx : Nat) : Nat :=
  first d k place + dy * d.hiresWidth.toNat + dx

/-- What a sprite leaves of a screen whose pixels are `k` by `k` cells, and what it answers. -/
structure Drawn (d : Display) (k rows cols : Nat) (sp : Sprite) (s : Screen) (hit : Bool)
    (s' : Screen) : Prop where
  extended : s'.extended = s.extended
  size : s'.cells.size = s.cells.size
  /-- All cells of a pixel under a set bit are dark if its first cell was lit, and lit if not. -/
  under : ∀ row col : Nat, (row : Int) < sp.height → col < 8 → sp.bit row col = true →
    ∀ dy < k, ∀ dx < k, s'.cells[cellOf d k (sp.pixel rows cols row col) dy dx]? =
      some (if s.lit d k (sp.pixel rows cols row col) then d.background else d.foreground)
  /-- The other cells are as before. -/
  others : ∀ i : Nat,
    (∀ row col : Nat, (row : Int) < sp.height → col < 8 → sp.bit row col = true →
      ∀ dy < k, ∀ dx < k, i ≠ cellOf d k (sp.pixel rows cols row col) dy dx) →
    s'.cells[i]? = s.cells[i]?
  /-- The answer is whether a cell that was lit is dark now. -/
  answer : hit = true ↔
    ∃ (i : Nat) (c : Int), s.cells[i]? = some c ∧ c ≠ d.background ∧
      s'.cells[i]? = some d.background

namespace Tiled

/-- Pixels that are flipped once each are flipped as they were at first. -/
theorem flips_fst (h : s.Tiled d k rows cols) {places : List (Nat × Nat)} (hnodup : places.Nodup)
    (hcols : ∀ p ∈ places, p.2 < cols) (hit : Bool) :
    (s.flips d k places hit).1 = true ↔ hit = true ∨ ∃ p ∈ places, s.lit d k p = true := by
  induction places generalizing hit s with
  | nil => simp [Screen.flips]
  | cons place places ih =>
      obtain ⟨hplace, hrest⟩ := List.nodup_cons.1 hnodup
      have hlit : ∀ p ∈ places, (s.flip d k place).lit d k p = s.lit d k p := by
        intro p hp
        have howner := h.owner_first (hcols p (List.mem_cons_of_mem _ hp))
        exact lit_flip_of_ne d k howner fun heq => hplace (heq ▸ hp)
      rw [Screen.flips, ih (h.flip place) hrest fun p hp => hcols p (List.mem_cons_of_mem _ hp)]
      simp only [Bool.or_eq_true, List.exists_mem_cons_iff, or_assoc]
      refine or_congr Iff.rfl (or_congr Iff.rfl ?_)
      exact exists_congr fun p => and_congr_right fun hp => by rw [hlit p hp]

/-- The cells after pixels were flipped once each. -/
theorem getElem?_flips_once (h : s.Tiled d k rows cols) (hcolours : d.foreground ≠ d.background)
    {places : List (Nat × Nat)} (hnodup : places.Nodup) (hit : Bool) {i : Nat}
    (hi : i < s.cells.size) :
    (s.flips d k places hit).2.cells[i]? =
      if owner d k i ∈ places then
        some (if s.lit d k (owner d k i) then d.background else d.foreground)
      else s.cells[i]? := by
  obtain ⟨hrow, hcol⟩ := h.owner_lt hi
  rw [h.getElem?_flips hcolours places hit hi]
  by_cases hp : owner d k i ∈ places
  · rw [if_pos hp, if_pos hp, h.lit_flips hcolours hrow hcol, List.count_eq_one_of_mem hnodup hp]
    cases s.lit d k (owner d k i) <;> rfl
  · rw [if_neg hp, if_neg hp]

/-- The cells of a pixel, counted from its first one. -/
theorem owner_eq_iff_cellOf (h : s.Tiled d k rows cols) {place : Nat × Nat} (hcol : place.2 < cols)
    {i : Nat} : owner d k i = place ↔ ∃ dy < k, ∃ dx < k, i = cellOf d k place dy dx := by
  simp only [cellOf, h.toNat_across]
  exact h.owner_eq_iff hcol

/-- The first cell of a pixel tells whether it is lit. -/
theorem lit_eq_true_iff (h : s.Tiled d k rows cols) {place : Nat × Nat} (hrow : place.1 < rows)
    (hcol : place.2 < cols) :
    s.lit d k place = true ↔ ∃ c, s.cells[first d k place]? = some c ∧ c ≠ d.background := by
  rw [lit, Array.getElem?_eq_getElem (h.first_lt hrow hcol)]
  simp

/-- What is noted while pixels are flipped once each is what the cells before and after show. -/
theorem hit_iff (h : s.Tiled d k rows cols) (hcolours : d.foreground ≠ d.background)
    {places : List (Nat × Nat)} (hnodup : places.Nodup)
    (hplaces : ∀ p ∈ places, p.1 < rows ∧ p.2 < cols) :
    (s.flips d k places false).1 = true ↔
      ∃ (i : Nat) (c : Int), s.cells[i]? = some c ∧ c ≠ d.background ∧
        (s.flips d k places false).2.cells[i]? = some d.background := by
  rw [h.flips_fst hnodup fun p hp => (hplaces p hp).2]
  simp only [Bool.false_eq_true, false_or]
  constructor
  · -- the first cell of a lit pixel goes dark with it
    rintro ⟨p, hp, hlit⟩
    obtain ⟨hrow, hcol⟩ := hplaces p hp
    obtain ⟨c, hc, hne⟩ := (h.lit_eq_true_iff hrow hcol).1 hlit
    refine ⟨first d k p, c, hc, hne, ?_⟩
    rw [h.getElem?_flips_once hcolours hnodup false (h.first_lt hrow hcol), h.owner_first hcol,
      if_pos hp, if_pos hlit]
  · -- a cell that has changed belongs to a pixel that was flipped, and only a lit one goes dark
    rintro ⟨i, c, hc, hne, hdark⟩
    have hi : i < s.cells.size := (Array.getElem?_eq_some_iff.1 hc).1
    rw [h.getElem?_flips_once hcolours hnodup false hi] at hdark
    by_cases hp : owner d k i ∈ places
    · refine ⟨owner d k i, hp, ?_⟩
      by_contra hlit
      rw [if_pos hp, if_neg hlit] at hdark
      exact hcolours (Option.some.inj hdark)
    · rw [if_neg hp, hc] at hdark
      exact absurd (Option.some.inj hdark) hne

/-- The pixels of a sprite are on the screen, because they wrap. -/
theorem lt_of_mem_pixels (h : s.Tiled d k rows cols) (sp : Sprite) :
    ∀ p ∈ sp.pixels rows cols, p.1 < rows ∧ p.2 < cols :=
  fun _ => Paint.lt_of_mem_spritePixels h.pos.2.1 h.pos.2.2

/-- Drawing a sprite flips its pixels in turn. -/
theorem paint_run (h : s.Tiled d k rows cols) {sp : Sprite} (hmemory : 0 < sp.memory.size) :
    (sp.paint d).run s = .ok (s.flips d k (sp.pixels rows cols) false).1
      (s.flips d k (sp.pixels rows cols) false).2 :=
  Paint.sprite_run h hmemory sp.index sp.x sp.y sp.height

/-- What drawing a sprite does that is not taller than the screen. -/
theorem drawn (h : s.Tiled d k rows cols) (sp : Sprite) (hcolours : d.foreground ≠ d.background)
    (hwide : 8 ≤ cols) (hmemory : 0 < sp.memory.size) (hheight : sp.height ≤ rows) :
    ∃ hit s', (sp.paint d).run s = .ok hit s' ∧ Drawn d k rows cols sp s hit s' := by
  have hnodup : (sp.pixels rows cols).Nodup := Sprite.nodup_pixels hheight hwide
  have hplaces := h.lt_of_mem_pixels sp
  have hcells := fun i (hi : i < s.cells.size) =>
    h.getElem?_flips_once hcolours hnodup false hi
  have hsize := size_flips d k (sp.pixels rows cols) false s
  refine ⟨_, _, h.paint_run hmemory, extended_flips d k _ false s, hsize, ?_, ?_,
    h.hit_iff hcolours hnodup hplaces⟩
  · intro row col hrow hcol hbit dy hdy dx hdx
    have hp : sp.pixel rows cols row col ∈ sp.pixels rows cols :=
      Sprite.mem_pixels.2 ⟨row, col, hrow, hcol, hbit, rfl⟩
    obtain ⟨hline, hcolumn⟩ := hplaces _ hp
    have howner := (h.owner_eq_iff_cellOf hcolumn).2 ⟨dy, hdy, dx, hdx, rfl⟩
    have hi : cellOf d k (sp.pixel rows cols row col) dy dx < s.cells.size := by
      rw [cellOf, h.toNat_across]
      exact h.cell_lt hline hcolumn hdy hdx
    exact (hcells _ hi).trans (by rw [howner, if_pos hp])
  · intro i hothers
    by_cases hi : i < s.cells.size
    · refine (hcells i hi).trans (if_neg fun hp => ?_)
      obtain ⟨row, col, hrow, hcol, hbit, hpixel⟩ := Sprite.mem_pixels.1 hp
      have hcolumn := (hplaces _ hp).2
      obtain ⟨dy, hdy, dx, hdx, heq⟩ := (h.owner_eq_iff_cellOf hcolumn).1 rfl
      rw [← hpixel] at heq
      exact hothers row col hrow hcol hbit dy hdy dx hdx heq
    · have hout := Nat.le_of_not_lt hi
      exact (Array.getElem?_eq_none (hsize.le.trans hout)).trans
        (Array.getElem?_eq_none hout).symm

/-- Drawing changes a pixel below the sprite exactly if the bit above it is set. -/
theorem lit_flips_pixels (h : s.Tiled d k rows cols) (hcolours : d.foreground ≠ d.background)
    (hrows : sp.height ≤ rows) (hcols : 8 ≤ cols) {row col : Nat} (hrow : (row : Int) < sp.height)
    (hcol : col < 8) (hit : Bool) :
    (s.flips d k (sp.pixels rows cols) hit).2.lit d k (sp.pixel rows cols row col)
      = (s.lit d k (sp.pixel rows cols row col) ^^ sp.bit row col) := by
  have hbit := Sprite.pixel_mem_pixels_iff hrows hcols hrow hcol
  obtain ⟨_, hline, hlines, -⟩ := Fault.exists_modulo (sp.y + row) h.pos.2.1
  obtain ⟨_, hcolumn, hcolumns, -⟩ := Fault.exists_modulo (sp.x + col) h.pos.2.2
  rw [h.lit_flips hcolours (by rw [Sprite.pixel, hlines]; exact hline)
    (by rw [Sprite.pixel, hcolumns]; exact hcolumn)]
  congr 1
  by_cases hmem : sp.pixel rows cols row col ∈ sp.pixels rows cols
  · rw [hbit.1 hmem, List.count_eq_one_of_mem (Sprite.nodup_pixels hrows hcols) hmem]
    rfl
  · rw [Bool.eq_false_iff.2 fun hset => hmem (hbit.2 hset), List.count_eq_zero.2 hmem]
    rfl

end Tiled

/-- In both resolutions the pixels of the usual screen tile it, and a sprite has room on it. -/
theorem exists_tiled (fore back : Int) (hsize : s.cells.size = 128 * 64) :
    ∃ k rows cols, s.Tiled { foreground := fore, background := back } k rows cols ∧
      32 ≤ rows ∧ 64 ≤ cols := by
  have htiled := tiled_usual fore back hsize
  split at htiled
  · exact ⟨1, 64, 128, htiled, by decide, by decide⟩
  · exact ⟨2, 32, 64, htiled, by decide, by decide⟩

end Screen

end Chip8
