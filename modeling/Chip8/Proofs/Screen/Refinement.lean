import Chip8.Proofs.Screen.Pixels
import Chip8.Proofs.Screen.Scrolling

/-!
# The screen as a picture

A screen that is drawn on in one resolution holds a picture: a dark or lit value for each pixel,
written out as blocks of cells (`Bitmap.cells`). The operations of the screen never look at the
picture. They read one cell of a block, write all of them and move flat stretches of the grid.
Each of them still does to the picture what its plain meaning says (`Screen.Shows.stroke`), so a
whole sequence does (`Screen.Shows.strokes`).

  * `Stroke`         : an operation in the active resolution, on the screen (`Stroke.paint`) and
    on a picture (`Bitmap.stroke`),
  * `Screen.Shows`   : the cells are those of a picture,
  * `Screen.Tiled.shows_dark`, `Screen.Tiled.shows_seen` : screens that show one, whatever was
    drawn before.
-/

namespace Chip8

/-- An operation on what is seen, without a change of the resolution. -/
inductive Stroke where
  | draw (memory : Array Byte) (index x y height : Int)
  | clear
  | scroll (n : Int)

namespace Stroke

/-- Sprites come from memory that is not empty, and the picture moves down only. -/
def Proper : Stroke → Prop
  | draw memory .. => 0 < memory.size
  | clear => True
  | scroll n => 0 ≤ n

/-- The stroke on a screen. The answer of a sprite is whether some pixel went dark. -/
def paint (d : Display) : Stroke → Paint (Option Bool)
  | draw memory index x y height => do
      return some (← Paint.sprite d memory index x y height)
  | clear => do
      modify (Screen.clear d)
      return none
  | scroll n => do
      set (← ofExcept ((← get).scroll d n))
      return none

end Stroke

namespace Bitmap

/-- The stroke on a picture of `rows` by `cols` pixels, and its answer. -/
def stroke (rows cols : Nat) (b : Bitmap) : Stroke → Option Bool × Bitmap
  | .draw memory index x y height =>
      let drawn := b.draw (spritePixels memory rows cols index x y height.toNat) false
      (some drawn.1, drawn.2)
  | .clear => (none, dark)
  | .scroll n => (none, b.scroll n.toNat)

/-- Strokes in a row on a picture, and the answers of all of them. -/
def strokes (rows cols : Nat) (b : Bitmap) : List Stroke → List (Option Bool) × Bitmap
  | [] => ([], b)
  | st :: rest =>
      let done := b.stroke rows cols st
      let after := done.2.strokes rows cols rest
      (done.1 :: after.1, after.2)

end Bitmap

namespace Screen

variable {d : Display} {k rows cols : Nat} {b : Bitmap} {s : Screen}

/-- The pixels tile the screen, and the cells are those of a picture. -/
structure Shows (d : Display) (k rows cols : Nat) (b : Bitmap) (s : Screen) : Prop where
  tiled : s.Tiled d k rows cols
  cells : s.cells = b.cells d k

namespace Tiled

/-- The cells of the screen are as many as the geometry says. -/
theorem area_eq (h : s.Tiled d k rows cols) : area d = s.cells.size := by
  rw [area, h.across, h.down, h.size, ← Int.natCast_mul, Int.toNat_natCast,
    Nat.mul_comm (cols * k)]

/-- A cell of a picture has the colour of its pixel. -/
theorem getElem?_cells (h : s.Tiled d k rows cols) (b : Bitmap) {i : Nat}
    (hi : i < s.cells.size) :
    (b.cells d k)[i]? =
      some (if b (owner d k i).1 (owner d k i).2 then d.foreground else d.background) := by
  rw [← h.area_eq] at hi
  rw [Bitmap.cells, Array.getElem?_ofFn, dif_pos hi]
  rfl

/-- The cells that come in when the picture moves down are those of the first rows. -/
theorem lt_incoming_iff (h : s.Tiled d k rows cols) {i n : Nat} (hi : i < s.cells.size) :
    i < min (n * k) (rows * k) * (cols * k) ↔ (owner d k i).1 < n := by
  have hk := h.pos.1
  have hwidth : 0 < cols * k := Nat.mul_pos h.pos.2.2 hk
  have hline : i / (cols * k) < rows * k := (Nat.div_lt_iff_lt_mul hwidth).2 (h.size ▸ hi)
  rw [owner, h.toNat_across, ← Nat.div_lt_iff_lt_mul hwidth, Nat.div_lt_iff_lt_mul hk, Nat.lt_min]
  exact and_iff_left hline

/-- The other cells come from the same place of the pixel that many rows above. -/
theorem owner_sub_incoming (h : s.Tiled d k rows cols) {i n : Nat} (hi : i < s.cells.size)
    (hn : n ≤ (owner d k i).1) :
    owner d k (i - min (n * k) (rows * k) * (cols * k))
      = ((owner d k i).1 - n, (owner d k i).2) := by
  have hk := h.pos.1
  have hle : n * k ≤ rows * k :=
    Nat.mul_le_mul_right k (hn.trans (Nat.le_of_lt (h.owner_lt hi).1))
  have hline : k * n ≤ i / (cols * k) := by
    rw [owner, h.toNat_across, Nat.le_div_iff_mul_le hk] at hn
    rwa [Nat.mul_comm]
  have hcell : cols * k * (k * n) ≤ i := by
    rw [Nat.mul_comm]
    exact Nat.mul_le_of_le_div _ _ _ hline
  have hm : min (n * k) (rows * k) * (cols * k) = cols * k * (k * n) := by
    rw [Nat.min_eq_left hle]
    ring
  rw [hm, owner, owner, h.toNat_across, Nat.sub_mul_div, Nat.sub_mul_div, Nat.sub_mul_mod hcell]

/-- A screen shows a picture if every cell has the colour of its pixel. -/
theorem shows_of_forall (h : s.Tiled d k rows cols)
    (hcells : ∀ i < s.cells.size, s.cells[i]? =
      some (if b (owner d k i).1 (owner d k i).2 then d.foreground else d.background)) :
    s.Shows d k rows cols b := by
  refine ⟨h, Array.ext_getElem? fun i => ?_⟩
  by_cases hi : i < s.cells.size
  · rw [hcells i hi, h.getElem?_cells b hi]
  · have hsize : (b.cells d k).size = s.cells.size := by
      rw [Bitmap.cells, Array.size_ofFn, h.area_eq]
    rw [Array.getElem?_eq_none (by omega), Array.getElem?_eq_none (by omega)]

/-- A screen without a lit cell shows the dark picture. -/
theorem shows_dark (h : s.Tiled d k rows cols) (hdark : ∀ c ∈ s.cells, c = d.background) :
    s.Shows d k rows cols .dark := by
  refine h.shows_of_forall fun i hi => ?_
  rw [Array.getElem?_eq_getElem hi, hdark _ (Array.getElem_mem hi)]
  rfl

end Tiled

namespace Shows

theorem getElem? (h : s.Shows d k rows cols b) {i : Nat} (hi : i < s.cells.size) :
    s.cells[i]? =
      some (if b (owner d k i).1 (owner d k i).2 then d.foreground else d.background) := by
  rw [← h.tiled.getElem?_cells b hi, h.cells]

/-- A pixel of the screen is lit if it is lit in the picture. -/
theorem lit (h : s.Shows d k rows cols b) (hcolours : d.foreground ≠ d.background)
    {place : Nat × Nat} (hrow : place.1 < rows) (hcol : place.2 < cols) :
    s.lit d k place = b place.1 place.2 := by
  rw [Screen.lit, h.getElem? (h.tiled.first_lt hrow hcol), h.tiled.owner_first hcol]
  cases b place.1 place.2 <;> simp [hcolours]

/-- What the program sees is the picture. -/
theorem pixel (h : s.Shows d k rows cols b) (hcolours : d.foreground ≠ d.background)
    {row col : Nat} (hrow : row < rows) (hcol : col < cols) :
    s.pixel d col row = .ok (b row col) := by
  have hlit : s.lit d k (row, col) = b row col := h.lit hcolours hrow hcol
  rw [h.tiled.pixel_eq hrow hcol, hlit]

/-- A pixel that is flipped changes in the picture. -/
theorem flip (h : s.Shows d k rows cols b) (hcolours : d.foreground ≠ d.background)
    {place : Nat × Nat} (hrow : place.1 < rows) (hcol : place.2 < cols) :
    (s.flip d k place).Shows d k rows cols (b.toggle place) := by
  refine (h.tiled.flip place).shows_of_forall fun i hi => ?_
  rw [Screen.flip, size_fill] at hi
  rw [Screen.flip, getElem?_fill, h.getElem? hi, h.lit hcolours hrow hcol, Option.map_some]
  by_cases hp : owner d k i = place
  · subst hp
    cases hb : b (owner d k i).1 (owner d k i).2 <;> simp [Bitmap.toggle, hb]
  · simp [Bitmap.toggle, hp]

/-- Flipping pixels of the screen is drawing them in the picture, with the same answer. -/
theorem flips (h : s.Shows d k rows cols b) (hcolours : d.foreground ≠ d.background)
    {places : List (Nat × Nat)} (hplaces : ∀ p ∈ places, p.1 < rows ∧ p.2 < cols) (hit : Bool) :
    (s.flips d k places hit).1 = (b.draw places hit).1 ∧
      (s.flips d k places hit).2.Shows d k rows cols (b.draw places hit).2 := by
  induction places generalizing b hit s with
  | nil => exact ⟨rfl, h⟩
  | cons place places ih =>
      obtain ⟨hrow, hcol⟩ := hplaces place List.mem_cons_self
      rw [Screen.flips, Bitmap.draw, h.lit hcolours hrow hcol]
      exact ih (h.flip hcolours hrow hcol) (fun p hp => hplaces p (List.mem_cons_of_mem _ hp)) _

/-- A screen that was cleared shows the dark picture. -/
theorem clear (h : s.Shows d k rows cols b) : (s.clear d).Shows d k rows cols .dark := by
  have htiled : (s.clear d).Tiled d k rows cols := h.tiled.congr rfl (size_clear d s)
  exact htiled.shows_dark fun c hc => Array.eq_of_mem_replicate hc

/-- Scrolling moves the picture, and its last rows are lost. -/
theorem scroll (h : s.Shows d k rows cols b) (n : Nat) :
    ∃ s', s.scroll d n = .ok s' ∧ s'.extended = s.extended ∧
      s'.Shows d k rows cols (b.scroll n) := by
  have hscroll := scroll_eq_append (n := n) h.tiled.scale h.tiled.across h.tiled.down h.tiled.size
  have hsize := size_scrolled (d := d) (n := n) (k := k) h.tiled.size
  refine ⟨_, hscroll, rfl, Tiled.shows_of_forall (h.tiled.congr rfl hsize) fun i hi => ?_⟩
  rw [hsize] at hi
  rw [getElem?_scrolled hi]
  by_cases hrow : (owner d k i).1 < n
  · rw [if_pos ((h.tiled.lt_incoming_iff hi).2 hrow)]
    simp [Bitmap.scroll, hrow]
  · rw [if_neg (mt (h.tiled.lt_incoming_iff hi).1 hrow), h.getElem? (by omega),
      h.tiled.owner_sub_incoming hi (Nat.le_of_not_lt hrow)]
    simp [Bitmap.scroll, hrow]

/-- A stroke does to the screen what it does to the picture. -/
theorem stroke (h : s.Shows d k rows cols b) (hcolours : d.foreground ≠ d.background)
    {st : Stroke} (hst : st.Proper) :
    ∃ s', (st.paint d).run s = .ok (b.stroke rows cols st).1 s' ∧ s'.extended = s.extended ∧
      s'.Shows d k rows cols (b.stroke rows cols st).2 := by
  cases st with
  | draw memory index x y height =>
      have hplaces : ∀ p ∈ spritePixels memory rows cols index x y height.toNat,
          p.1 < rows ∧ p.2 < cols :=
        fun p => Paint.lt_of_mem_spritePixels h.tiled.pos.2.1 h.tiled.pos.2.2
      obtain ⟨hanswer, hshows⟩ := h.flips hcolours hplaces false
      refine ⟨_, ?_, extended_flips d k _ false s, hshows⟩
      rw [Stroke.paint, run_bind_of_ok (Paint.sprite_run h.tiled hst index x y height),
        hanswer]
      rfl
  | clear => exact ⟨s.clear d, rfl, rfl, h.clear⟩
  | scroll n =>
      obtain ⟨n, rfl⟩ := Int.eq_ofNat_of_zero_le hst
      obtain ⟨s', hs', hmode, hshows⟩ := h.scroll n
      refine ⟨s', ?_, hmode, hshows⟩
      rw [Stroke.paint, Paint.run_get_bind, Paint.run_ofExcept_bind hs']
      rfl

/-- Strokes in a row answer as they do on the picture, and the screen shows what they make of it. -/
theorem strokes (h : s.Shows d k rows cols b) (hcolours : d.foreground ≠ d.background)
    {sts : List Stroke} (hsts : ∀ st ∈ sts, st.Proper) :
    ∃ s', (sts.mapM (Stroke.paint d)).run s = .ok (b.strokes rows cols sts).1 s' ∧
      s'.extended = s.extended ∧ s'.Shows d k rows cols (b.strokes rows cols sts).2 := by
  induction sts generalizing s b with
  | nil => exact ⟨s, rfl, rfl, h⟩
  | cons st sts ih =>
      obtain ⟨s₁, hrun, hmode, hshows⟩ := h.stroke hcolours (hsts st List.mem_cons_self)
      obtain ⟨s₂, hruns, hmodes, hafter⟩ :=
        ih hshows fun st' hst' => hsts st' (List.mem_cons_of_mem st hst')
      refine ⟨s₂, ?_, hmodes.trans hmode, hafter⟩
      rw [List.mapM_cons, run_bind_of_ok hrun, run_bind_of_ok hruns]
      rfl

end Shows

/-! ## The usual geometry -/

/-- In either resolution of the usual geometry, the pixels tile the screen. -/
theorem tiled_usual (fore back : Int) (hsize : s.cells.size = 128 * 64) :
    if s.extended then s.Tiled { foreground := fore, background := back } 1 64 128
    else s.Tiled { foreground := fore, background := back } 2 32 64 := by
  cases hmode : s.extended with
  | true =>
      exact ⟨by simp [scale, hmode], by simp [width, hmode], by simp [height, hmode], rfl, rfl,
        by decide, hsize⟩
  | false =>
      refine ⟨?_, by simp [width, hmode], by simp [height, hmode], rfl, rfl, by decide, hsize⟩
      rw [scale, hmode]
      rfl

/-- The picture that the first cells of the pixels show. -/
def seen (d : Display) (k : Nat) (s : Screen) : Bitmap := fun row col => s.lit d k (row, col)

/-- A screen of two colours shows a picture if no pixel has two of them. -/
theorem Tiled.shows_seen (h : s.Tiled d k rows cols)
    (hcolours : ∀ c ∈ s.cells, c = d.foreground ∨ c = d.background)
    (huniform : ∀ i < s.cells.size, s.cells[i]? = s.cells[first d k (owner d k i)]?) :
    s.Shows d k rows cols (s.seen d k) := by
  refine h.shows_of_forall fun i hi => ?_
  show s.cells[i]? = some (if s.lit d k (owner d k i) then d.foreground else d.background)
  rw [lit, ← huniform i hi, Array.getElem?_eq_getElem hi, Option.any_some]
  rcases hcolours _ (Array.getElem_mem hi) with hc | hc
  · rw [hc]
    by_cases hsame : d.foreground = d.background <;> simp [hsame]
  · simp [hc]

/-- **The screen refines a picture.** Start in low resolution from a dark screen, or in high
    resolution from any screen of the two colours. Then strokes never fail, answer what they
    answer on a picture, and leave the cells of that picture, which is what the program sees. -/
theorem strokes_refine_bitmap {fore back : Int} (hcolours : fore ≠ back) {s : Screen}
    (hstart : (s.extended = false ∧ s.cells = Array.replicate (128 * 64) back) ∨
      (s.extended = true ∧ s.cells.size = 128 * 64 ∧ ∀ c ∈ s.cells, c = fore ∨ c = back)) :
    let d : Display := { foreground := fore, background := back }
    ∃ k rows cols : Nat, s.scale d = .ok k ∧ s.height d = rows ∧ s.width d = cols ∧
      ∃ b : Bitmap, s.cells = b.cells d k ∧
        ∀ sts : List Stroke, (∀ st ∈ sts, st.Proper) →
          ∃ s', (sts.mapM (Stroke.paint d)).run s = .ok (b.strokes rows cols sts).1 s' ∧
            s'.extended = s.extended ∧ s'.cells = (b.strokes rows cols sts).2.cells d k ∧
            ∀ row < rows, ∀ col < cols,
              s'.pixel d col row = .ok ((b.strokes rows cols sts).2 row col) := by
  intro d
  obtain ⟨k, rows, cols, b, hshows⟩ : ∃ k rows cols b, s.Shows d k rows cols b := by
    rcases hstart with ⟨hmode, hcells⟩ | ⟨hmode, hsize, htwo⟩
    · have htiled := tiled_usual (s := s) fore back (by simp [hcells])
      rw [hmode] at htiled
      refine ⟨2, 32, 64, .dark, Tiled.shows_dark htiled fun c hc => ?_⟩
      rw [hcells] at hc
      exact Array.eq_of_mem_replicate hc
    · have htiled := tiled_usual fore back hsize
      rw [hmode, if_pos rfl] at htiled
      refine ⟨1, 64, 128, s.seen d 1, htiled.shows_seen htwo fun i _ => ?_⟩
      rw [first_owner_one]
  refine ⟨k, rows, cols, hshows.tiled.scale, hshows.tiled.height, hshows.tiled.width, b,
    hshows.cells, fun sts hsts => ?_⟩
  obtain ⟨s', hrun, hmode, hafter⟩ := hshows.strokes hcolours hsts
  exact ⟨s', hrun, hmode, hafter.cells, fun row hrow col hcol => hafter.pixel hcolours hrow hcol⟩

/-- A sprite of two pixels wraps at the right edge. Drawn over, its first pixel goes dark again, and
    the other one moves with the picture to the last row. -/
theorem strokes_refine_bitmap_corner :
    (0xFFFFFFFF : Int) ≠ 0xFF000000 ∧ (blank {}).extended = false ∧
      (blank {}).cells = Array.replicate (128 * 64) 0xFF000000 ∧
      ∃ s', ([.clear, .draw #[0xC0] 0 63 30 1, .draw #[0x80] 0 63 30 1, .scroll 1].mapM
          (Stroke.paint {})).run (blank {}) = .ok [none, some false, some true, none] s' ∧
        s'.pixel {} 63 31 = .ok false ∧ s'.pixel {} 0 31 = .ok true := by
  have hne : (0xFFFFFFFF : Int) ≠ 0xFF000000 := by decide
  have hcells : (blank {}).cells = Array.replicate (128 * 64) 0xFF000000 := rfl
  refine ⟨hne, rfl, hcells, ?_⟩
  obtain ⟨k, rows, cols, _, hrows, hcols, b, _, hsts⟩ :=
    strokes_refine_bitmap hne (Or.inl ⟨rfl, hcells⟩)
  obtain rfl : rows = 32 := (Int.ofNat.inj hrows).symm
  obtain rfl : cols = 64 := (Int.ofNat.inj hcols).symm
  obtain ⟨s', hrun, _, _, hpixel⟩ :=
    hsts [.clear, .draw #[0xC0] 0 63 30 1, .draw #[0x80] 0 63 30 1, .scroll 1]
      (by simp [Stroke.Proper])
  exact ⟨s', hrun, hpixel 31 (by decide) 63 (by decide), hpixel 31 (by decide) 0 (by decide)⟩

end Screen

end Chip8
