import Chip8.Proofs.Upholds
import Chip8.Screen.Bitmap
import Chip8.Screen.Sprite
import Mathlib.Tactic.Ring

/-!
# What drawing does to the cells

Where the pixels of the active resolution tile the screen (`Screen.Tiled`), drawing is described
cell by cell, whatever the cells hold.

  * `Screen.fill`  : some cells in one colour,
  * `Screen.flip`  : a pixel that changes between dark and lit, with all its cells, as its first
    cell says,
  * `Screen.flips` : pixels flipped one after the other, noting whether a lit one went dark.

Drawing a sprite flips the pixels under its bits, in the order of `spritePixels`
(`Paint.sprite_run`).
-/

namespace Chip8

/-- A place in a block is a place in the row of all blocks. -/
theorem mul_add_lt {a b n k : Nat} (ha : a < n) (hb : b < k) : a * k + b < n * k := by
  calc a * k + b < a * k + k := Nat.add_lt_add_left hb _
    _ = (a + 1) * k := (Nat.succ_mul a k).symm
    _ ≤ n * k := Nat.mul_le_mul_right k ha

namespace Screen

/-- The screen with a colour in the cells of some numbers. -/
def fill (p : Nat → Bool) (colour : Int) (s : Screen) : Screen :=
  { s with cells := s.cells.mapIdx fun i c => if p i then colour else c }

variable {p q : Nat → Bool} {colour : Int} {s : Screen}

@[simp] theorem size_fill : (s.fill p colour).cells.size = s.cells.size := Array.size_mapIdx

theorem setExtended_fill (on : Bool) :
    (s.fill p colour).setExtended on = (s.setExtended on).fill p colour := rfl

theorem getElem?_fill (i : Nat) :
    (s.fill p colour).cells[i]? = s.cells[i]?.map fun c => if p i then colour else c :=
  Array.getElem?_mapIdx

/-- Two screens are the same if they show the same resolution and the same cells. -/
theorem ext_cells {s t : Screen} (hmode : s.extended = t.extended)
    (hcells : ∀ i : Nat, s.cells[i]? = t.cells[i]?) : s = t := by
  cases s
  cases t
  obtain rfl := hmode
  obtain rfl := Array.ext_getElem? hcells
  rfl

theorem fill_none (h : ∀ i, p i = false) : s.fill p colour = s := by
  refine ext_cells rfl fun i => ?_
  rw [getElem?_fill]
  simp [h]

/-- Cells that are coloured in turn are coloured at once. -/
theorem fill_fill : (s.fill p colour).fill q colour = s.fill (fun i => p i || q i) colour := by
  refine ext_cells rfl fun i => ?_
  simp only [getElem?_fill, Option.map_map]
  congr 1
  funext c
  cases p i <;> cases q i <;> rfl

/-- Cells that are filled at different places do not meet. -/
theorem fill_comm (h : ∀ i, p i = true → q i = false) (colour colour' : Int) :
    (s.fill p colour).fill q colour' = (s.fill q colour').fill p colour := by
  refine ext_cells rfl fun i => ?_
  simp only [getElem?_fill, Option.map_map]
  congr 1
  funext c
  cases hp : p i with
  | false => simp
  | true => simp [h i hp]

/-! ## Pixels -/

variable (d : Display) (k : Nat)

/-- The row and the column of the pixel that a cell belongs to, if pixels are `k` cells wide. -/
def owner (i : Nat) : Nat × Nat :=
  (i / d.hiresWidth.toNat / k, i % d.hiresWidth.toNat / k)

/-- The number of the top-left cell of a pixel. -/
def first (place : Nat × Nat) : Nat := place.1 * k * d.hiresWidth.toNat + place.2 * k

/-- Pixels of one cell are that cell. -/
theorem first_owner_one (i : Nat) : first d 1 (owner d 1 i) = i := by
  simp only [first, owner, Nat.div_one, Nat.mul_one]
  exact Nat.div_add_mod' i _

/-- Whether a pixel is lit, as its first cell says. -/
def lit (place : Nat × Nat) (s : Screen) : Bool :=
  s.cells[first d k place]?.any (· != d.background)

/-- The screen with all cells of a pixel changed to dark or lit, against its first cell. -/
def flip (place : Nat × Nat) (s : Screen) : Screen :=
  s.fill (fun i => owner d k i == place)
    (if s.lit d k place then d.background else d.foreground)

/-- A pixel is as lit as before another one was flipped. -/
theorem lit_flip_of_ne {place q : Nat × Nat} (hq : owner d k (first d k q) = q) (hne : q ≠ place) :
    (s.flip d k place).lit d k q = s.lit d k q := by
  rw [flip, lit, getElem?_fill, hq, beq_false_of_ne hne, lit]
  congr 1
  exact Option.map_id'

/-- The screen with pixels flipped in turn, and whether one of them was lit at its turn or `hit`
    was set before. -/
def flips (places : List (Nat × Nat)) (hit : Bool) (s : Screen) : Bool × Screen :=
  match places with
  | [] => (hit, s)
  | place :: rest => flips rest (hit || s.lit d k place) (s.flip d k place)

/-- Pixels that are flipped in two rounds are flipped in one. -/
theorem flips_append (ps qs : List (Nat × Nat)) (hit : Bool) (s : Screen) :
    s.flips d k (ps ++ qs) hit = (s.flips d k ps hit).2.flips d k qs (s.flips d k ps hit).1 := by
  induction ps generalizing hit s with
  | nil => rfl
  | cons place ps ih => exact ih ..

/-- The screen that is left by flips does not depend on what was noted before. -/
theorem flips_snd (places : List (Nat × Nat)) (hit : Bool) (s : Screen) :
    (s.flips d k places hit).2 = places.foldl (fun s place => s.flip d k place) s := by
  induction places generalizing hit s with
  | nil => rfl
  | cons place places ih => exact ih ..

@[simp] theorem size_flips (places : List (Nat × Nat)) (hit : Bool) (s : Screen) :
    (s.flips d k places hit).2.cells.size = s.cells.size := by
  induction places generalizing hit s with
  | nil => rfl
  | cons place places ih => exact (ih ..).trans size_fill

@[simp] theorem extended_flips (places : List (Nat × Nat)) (hit : Bool) (s : Screen) :
    (s.flips d k places hit).2.extended = s.extended := by
  induction places generalizing hit s with
  | nil => rfl
  | cons place places ih => exact ih ..

/-- The pixels of the active resolution are blocks of `k` by `k` cells, and `rows` by `cols` of
    them make up the screen. -/
structure Tiled (s : Screen) (k rows cols : Nat) : Prop where
  scale : s.scale d = .ok k
  width : s.width d = cols
  height : s.height d = rows
  across : d.hiresWidth = (cols * k : Nat)
  down : d.hiresHeight = (rows * k : Nat)
  pos : 0 < k ∧ 0 < rows ∧ 0 < cols
  size : s.cells.size = rows * k * (cols * k)

namespace Tiled

variable {d k} {rows cols : Nat}

theorem toNat_across (h : s.Tiled d k rows cols) : d.hiresWidth.toNat = cols * k := by
  rw [h.across, Int.toNat_natCast]

/-- Tiling depends on the resolution and the number of cells only. -/
theorem congr {t : Screen} (h : s.Tiled d k rows cols) (hmode : t.extended = s.extended)
    (hsize : t.cells.size = s.cells.size) : t.Tiled d k rows cols :=
  { h with
    scale := by rw [Screen.scale, hmode]; exact h.scale
    width := by rw [Screen.width, hmode]; exact h.width
    height := by rw [Screen.height, hmode]; exact h.height
    size := hsize.trans h.size }

theorem flip (h : s.Tiled d k rows cols) (place : Nat × Nat) :
    (s.flip d k place).Tiled d k rows cols :=
  h.congr rfl size_fill

theorem flips (h : s.Tiled d k rows cols) (places : List (Nat × Nat)) (hit : Bool) :
    (s.flips d k places hit).2.Tiled d k rows cols :=
  h.congr (extended_flips d k places hit s) (size_flips d k places hit s)

/-- The cells of a pixel, counted from its first one. -/
theorem owner_eq_iff (h : s.Tiled d k rows cols) {place : Nat × Nat} (hcol : place.2 < cols)
    {i : Nat} :
    owner d k i = place ↔
      ∃ dy < k, ∃ dx < k, i = first d k place + dy * (cols * k) + dx := by
  obtain ⟨row, col⟩ := place
  dsimp only at hcol
  have hk := h.pos.1
  simp only [owner, first, h.toNat_across, Prod.mk.injEq]
  constructor
  · -- the line and the column of the cell, each cut into a pixel and a place in it
    rintro ⟨rfl, rfl⟩
    refine ⟨i / (cols * k) % k, Nat.mod_lt _ hk, i % (cols * k) % k, Nat.mod_lt _ hk, ?_⟩
    have hcell := Nat.div_add_mod i (cols * k)
    have hline := Nat.div_add_mod (i / (cols * k)) k
    have hcolumn := Nat.div_add_mod (i % (cols * k)) k
    calc i = cols * k * (i / (cols * k)) + i % (cols * k) := hcell.symm
      _ = cols * k * (k * (i / (cols * k) / k) + i / (cols * k) % k)
          + (k * (i % (cols * k) / k) + i % (cols * k) % k) := by rw [hline, hcolumn]
      _ = _ := by ring
  · -- the cell stands in its line behind the pixels to the left, and that is less than a line
    rintro ⟨dy, hdy, dx, hdx, rfl⟩
    have hlt : col * k + dx < cols * k := mul_add_lt hcol hdx
    have hcell : row * k * (cols * k) + col * k + dy * (cols * k) + dx
        = col * k + dx + cols * k * (row * k + dy) := by ring
    rw [hcell, Nat.add_mul_div_left _ _ (by omega), Nat.add_mul_mod_self_left,
      Nat.div_eq_of_lt hlt, Nat.mod_eq_of_lt hlt, Nat.zero_add]
    constructor
    · rw [Nat.add_comm, Nat.add_mul_div_right _ _ hk, Nat.div_eq_of_lt hdy, Nat.zero_add]
    · rw [Nat.add_comm, Nat.add_mul_div_right _ _ hk, Nat.div_eq_of_lt hdx, Nat.zero_add]

/-- A cell of a pixel is a cell of the screen. -/
theorem cell_lt (h : s.Tiled d k rows cols) {place : Nat × Nat} (hrow : place.1 < rows)
    (hcol : place.2 < cols) {dy dx : Nat} (hdy : dy < k) (hdx : dx < k) :
    first d k place + dy * (cols * k) + dx < s.cells.size := by
  obtain ⟨row, col⟩ := place
  have hcell : row * k * (cols * k) + col * k + dy * (cols * k) + dx
      = (row * k + dy) * (cols * k) + (col * k + dx) := by ring
  rw [h.size, first, h.toNat_across, hcell]
  exact mul_add_lt (mul_add_lt hrow hdy) (mul_add_lt hcol hdx)

/-- The top-left cell of a pixel is a cell of the screen. -/
theorem first_lt (h : s.Tiled d k rows cols) {place : Nat × Nat} (hrow : place.1 < rows)
    (hcol : place.2 < cols) : first d k place < s.cells.size := by
  have hlt := h.cell_lt hrow hcol h.pos.1 h.pos.1
  omega

/-- The corner of a pixel is its first cell. -/
theorem corner_eq (h : s.Tiled d k rows cols) (row col : Nat) :
    corner d k col row = first d k (row, col) := by
  simp only [corner, first, h.across, Int.toNat_natCast]
  push_cast
  rfl

/-- The colour of the first cell is there, and it tells whether the pixel is lit. -/
theorem colourAt_first (h : s.Tiled d k rows cols) {place : Nat × Nat} (hrow : place.1 < rows)
    (hcol : place.2 < cols) :
    ∃ c, s.colourAt (first d k place) = .ok c ∧ s.lit d k place = (c != d.background) := by
  have hlt := h.first_lt hrow hcol
  refine ⟨s.cells[first d k place], ?_, ?_⟩
  · rw [colourAt, Cells.get?_natCast, Array.getElem?_eq_getElem hlt]
  · rw [lit, Array.getElem?_eq_getElem hlt, Option.any_some]

/-- What a program is told about a pixel is whether it is lit. -/
theorem pixel_eq (h : s.Tiled d k rows cols) {row col : Nat} (hrow : row < rows)
    (hcol : col < cols) : s.pixel d col row = .ok (s.lit d k (row, col)) := by
  obtain ⟨c, hcolour, hc⟩ : ∃ c, s.colourAt (first d k (row, col)) = .ok c ∧
      s.lit d k (row, col) = (c != d.background) := h.colourAt_first hrow hcol
  rw [Screen.pixel, h.scale]
  show (do let c ← s.colourAt (corner d k col row); pure (c != d.background)) = _
  rw [h.corner_eq, hcolour, hc]
  rfl

/-- The top-left cell of a pixel belongs to it. -/
theorem owner_first (h : s.Tiled d k rows cols) {place : Nat × Nat} (hcol : place.2 < cols) :
    owner d k (first d k place) = place :=
  (h.owner_eq_iff hcol).2 ⟨0, h.pos.1, 0, h.pos.1, by omega⟩

/-- The cells of the screen belong to its pixels. -/
theorem owner_lt (h : s.Tiled d k rows cols) {i : Nat} (hi : i < s.cells.size) :
    (owner d k i).1 < rows ∧ (owner d k i).2 < cols := by
  have hk := h.pos.1
  have hwidth : 0 < cols * k := Nat.mul_pos h.pos.2.2 hk
  rw [h.size] at hi
  simp only [owner, h.toNat_across]
  constructor
  · exact Nat.div_lt_of_lt_mul (Nat.div_lt_of_lt_mul (by rw [Nat.mul_comm k]; rwa [Nat.mul_comm]))
  · exact Nat.div_lt_of_lt_mul (by rw [Nat.mul_comm k]; exact Nat.mod_lt _ hwidth)

/-- A flip changes one pixel and no other. -/
theorem lit_flip (h : s.Tiled d k rows cols) (hcolours : d.foreground ≠ d.background)
    {place q : Nat × Nat} (hrow : q.1 < rows) (hcol : q.2 < cols) :
    (s.flip d k place).lit d k q = (s.lit d k q ^^ (q == place)) := by
  by_cases hq : q = place
  · subst hq
    have hlt := h.first_lt hrow hcol
    rw [Screen.flip, lit, getElem?_fill, h.owner_first hcol]
    cases hlit : s.lit d k q <;> simp [Array.getElem?_eq_getElem hlt, hcolours]
  · rw [lit_flip_of_ne d k (h.owner_first hcol) hq, beq_false_of_ne hq, Bool.xor_false]

/-- Each time a pixel is flipped it changes, and no other pixel does. -/
theorem lit_flips (h : s.Tiled d k rows cols) (hcolours : d.foreground ≠ d.background)
    {q : Nat × Nat} (hrow : q.1 < rows) (hcol : q.2 < cols) (places : List (Nat × Nat))
    (hit : Bool) :
    (s.flips d k places hit).2.lit d k q
      = (s.lit d k q ^^ decide (places.count q % 2 = 1)) := by
  induction places generalizing hit s with
  | nil => simp [Screen.flips]
  | cons place places ih =>
      rw [Screen.flips, ih (h.flip place), h.lit_flip hcolours hrow hcol, List.count_cons,
        Bool.xor_assoc]
      congr 1
      by_cases hq : place = q
      · subst hq
        have hsucc : (places.count place + 1) % 2 = 1 ↔ ¬ places.count place % 2 = 1 := by omega
        simp only [beq_self_eq_true, if_true, Bool.true_xor, decide_eq_decide.2 hsucc, decide_not]
      · simp [beq_false_of_ne hq, beq_false_of_ne (Ne.symm hq)]

/-- A flipped pixel is of one colour, whatever its cells were. The other cells are as before. -/
theorem getElem?_flips (h : s.Tiled d k rows cols) (hcolours : d.foreground ≠ d.background)
    (places : List (Nat × Nat)) (hit : Bool) {i : Nat} (hi : i < s.cells.size) :
    (s.flips d k places hit).2.cells[i]? =
      if owner d k i ∈ places then
        some (if (s.flips d k places hit).2.lit d k (owner d k i) then d.foreground
          else d.background)
      else s.cells[i]? := by
  obtain ⟨hrow, hcol⟩ := h.owner_lt hi
  induction places generalizing hit s with
  | nil => simp [Screen.flips]
  | cons place places ih =>
      have hflip := h.flip place
      rw [Screen.flips, ih hflip _ (by rwa [Screen.flip, size_fill])]
      by_cases hrest : owner d k i ∈ places
      · simp [hrest]
      · -- flipped now and not again
        have hcount : places.count (owner d k i) = 0 := List.count_eq_zero.2 hrest
        rw [if_neg hrest, hflip.lit_flips hcolours hrow hcol, hcount,
          h.lit_flip hcolours hrow hcol, Screen.flip, getElem?_fill]
        by_cases hp : owner d k i = place
        · subst hp
          cases hlit : s.lit d k (owner d k i) <;>
            simp [Array.getElem?_eq_getElem hi]
        · simp [hp, hrest]

end Tiled

end Screen

/-! ## Drawing -/

namespace Paint

open Screen (fill owner first)

variable {d : Display} {k rows cols : Nat} {s : Screen}

theorem run_get_bind {β : Type} (next : Screen → Paint β) (s : Screen) :
    (get >>= next).run s = (next s).run s := rfl

theorem run_ofExcept_bind {α β : Type} {x : Except Fault α} {a : α} (h : x = .ok a)
    (next : α → Paint β) (s : Screen) : (ofExcept x >>= next).run s = (next a).run s := by
  rw [h]
  rfl

/-- A cell of the screen takes the colour, and no other cell does. -/
theorem cell_run {i : Nat} (hi : i < s.cells.size) (colour : Int) :
    (cell i colour).run s = .ok () (s.fill (· == i) colour) := by
  have hset : ({ s with cells := s.cells.set i colour } : Screen) = s.fill (· == i) colour := by
    refine Screen.ext_cells rfl fun j => ?_
    rw [Screen.getElem?_fill, Array.getElem?_set]
    by_cases hj : i = j
    · subst hj
      simp [Array.getElem?_eq_getElem hi]
    · simp [hj, Ne.symm hj]
  rw [← hset, cell, run_get_bind, Cells.position?_natCast hi]
  rfl

/-- A loop whose turns each fill cells of one colour fills all those cells. -/
theorem forM_run {α : Type} {act : α → Paint Unit} {p : α → Nat → Bool} {colour : Int}
    {l : List α} {size : Nat} (hsize : s.cells.size = size)
    (hact : ∀ a ∈ l, ∀ s : Screen, s.cells.size = size →
      (act a).run s = .ok () (s.fill (p a) colour)) :
    (l.forM act).run s = .ok () (s.fill (fun i => l.any (p · i)) colour) := by
  induction l generalizing s with
  | nil =>
      rw [Screen.fill_none fun i => List.any_nil]
      rfl
  | cons a l ih =>
      have hrest := ih (s := s.fill (p a) colour) (Screen.size_fill.trans hsize)
        fun b hb => hact b (List.mem_cons_of_mem a hb)
      show (act a >>= fun _ => l.forM act).run s = _
      rw [run_bind_of_ok (hact a List.mem_cons_self s hsize), hrest, Screen.fill_fill]
      rfl

/-- Colouring the block below and to the right of the first cell of a pixel colours the pixel. -/
theorem block_run (h : s.Tiled d k rows cols) {place : Nat × Nat} (hrow : place.1 < rows)
    (hcol : place.2 < cols) (colour : Int) :
    (block d k (first d k place) colour).run s
      = .ok () (s.fill (fun i => owner d k i == place) colour) := by
  have hcell : ∀ dy < k, ∀ dx < k, ∀ t : Screen, t.cells.size = s.cells.size →
      (cell (first d k place + dy * d.hiresWidth + dx) colour).run t
        = .ok () (t.fill (· == first d k place + dy * (cols * k) + dx) colour) := by
    intro dy hdy dx hdx t ht
    have hlt := h.cell_lt hrow hcol hdy hdx
    rw [← ht] at hlt
    rw [h.across]
    exact_mod_cast cell_run hlt colour
  rw [block, Int.toNat_natCast]
  rw [forM_run rfl fun dy hdy t ht => forM_run ht fun dx hdx =>
    hcell dy (List.mem_range.1 hdy) dx (List.mem_range.1 hdx)]
  congr 2
  funext i
  rw [Bool.eq_iff_iff]
  simp only [List.any_eq_true, List.mem_range, beq_iff_eq, h.owner_eq_iff hcol]

/-- A pixel is flipped, and the answer is whether it was lit. -/
theorem toggle_run (h : s.Tiled d k rows cols) {place : Nat × Nat} (hrow : place.1 < rows)
    (hcol : place.2 < cols) :
    (toggle d k (first d k place)).run s = .ok (s.lit d k place) (s.flip d k place) := by
  obtain ⟨c, hcolour, hlit⟩ := h.colourAt_first hrow hcol
  rw [toggle, run_get_bind, run_ofExcept_bind hcolour,
    run_bind_of_ok (block_run h hrow hcol _), Screen.flip, hlit]
  rfl

/-- The pixels under a sprite are pixels of the screen. -/
theorem lt_of_mem_spritePixels {memory : Array Byte} {index x y : Int} {height : Nat}
    {place : Nat × Nat} (hrows : 0 < rows) (hcols : 0 < cols)
    (h : place ∈ spritePixels memory rows cols index x y height) :
    place.1 < rows ∧ place.2 < cols := by
  simp only [spritePixels, List.mem_flatMap, List.mem_map] at h
  obtain ⟨line, _, column, _, rfl⟩ := h
  obtain ⟨row, hrow, hline, _⟩ := Fault.exists_modulo (y + line) hrows
  obtain ⟨col, hcol, hcolumn, _⟩ := Fault.exists_modulo (x + column) hcols
  simp only [hline, hcolumn, Int.toNat_natCast]
  exact ⟨hrow, hcol⟩

/-- A byte of a sprite flips the pixels under its set bits. -/
theorem spriteRow_run (h : s.Tiled d k rows cols) {row : Nat} (hrow : row < rows) (x : Int)
    (bits : Byte) (hit : Bool) :
    (spriteRow d k cols (Screen.corner d k 0 row) x bits hit).run s =
      let flipped := s.flips d k (((List.range 8).filter (Byte.bit bits)).map fun (col : Nat) =>
        (row, ((x + col) % cols).toNat)) hit
      .ok flipped.1 flipped.2 := by
  rw [spriteRow]
  -- that there are eight columns plays no part, so the induction is over any columns
  generalize List.range 8 = columns
  induction columns generalizing s hit with
  | nil => rfl
  | cons column columns ih =>
      rw [List.foldlM_cons]
      by_cases hbit : Byte.bit bits column = true
      · obtain ⟨col, hlt, hcol, hmodulo⟩ := Fault.exists_modulo (x + column) h.pos.2.2
        have hfirst : Screen.corner d k 0 row + col * k = first d k (row, col) := by
          rw [← h.corner_eq, Screen.corner, Screen.corner]
          ring
        have htoggle : (toggle d k (first d k (row, col))).run s
            = .ok (s.lit d k (row, col)) (s.flip d k (row, col)) := toggle_run h hrow hlt
        rw [if_pos hbit, bind_assoc, run_ofExcept_bind hmodulo, hfirst, bind_assoc,
          run_bind_of_ok htoggle, pure_bind, ih (h.flip _), List.filter_cons_of_pos hbit,
          List.map_cons, hcol, Int.toNat_natCast]
        rfl
      · rw [if_neg hbit, pure_bind, ih h, List.filter_cons_of_neg hbit]

/-- **What drawing a sprite does.** The pixels under the bits of the sprite are flipped in turn,
    and the answer tells whether one of them was lit at its turn. -/
theorem sprite_run (h : s.Tiled d k rows cols) {memory : Array Byte} (hmemory : 0 < memory.size)
    (index x y height : Int) :
    (sprite d memory index x y height).run s =
      let flipped := s.flips d k (spritePixels memory rows cols index x y height.toNat) false
      .ok flipped.1 flipped.2 := by
  rw [sprite, run_get_bind, run_ofExcept_bind h.scale, h.width, h.height,
    Count.foldM_eq_foldlM, ← List.range_eq_range', spritePixels]
  -- the loop carries the answer, so the induction is for any answer and any screen so far
  generalize List.range height.toNat = lines
  generalize false = hit
  induction lines generalizing s hit with
  | nil => rfl
  | cons line lines ih =>
      obtain ⟨place, hplace, hbyte, hread⟩ := Fault.exists_modulo (index + line) hmemory
      obtain ⟨row, hrow, hline, hwrap⟩ := Fault.exists_modulo (y + line) h.pos.2.1
      rw [List.foldlM_cons, bind_assoc, run_ofExcept_bind hread, bind_assoc,
        run_ofExcept_bind hwrap, Cells.get?_natCast, Array.getElem?_eq_getElem hplace,
        run_bind_of_ok (spriteRow_run h hrow x _ hit), ih (h.flips _ _), List.flatMap_cons,
        Screen.flips_append, hbyte, hline, Int.toNat_natCast, Int.toNat_natCast,
        Array.getElem?_eq_getElem hplace]
      rfl

end Paint

end Chip8
