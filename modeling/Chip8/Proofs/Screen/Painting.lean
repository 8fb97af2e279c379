import Chip8.Proofs.Machine.Effect
import Chip8.Screen.Sprite

/-!
# Painting stays on the screen

What drawing a sprite can never do, with the invariants that show it.

  * Whatever the geometry, drawing and scrolling leave the resolution alone and do not trap
    (`Paint.sprite_steady`, `Screen.scroll_steady`).
  * With the usual geometry, drawing on a `Screen.Sound` screen, in either resolution and at any
    place, reads and writes cells of the grid only and puts one of the two colours into each
    (`Paint.sprite_safe`). So it cannot fail as long as there is memory to read the sprite from.
    Scrolling by a number of pixels that is not negative cannot fail either
    (`Screen.Sound.scroll`).
-/

namespace Chip8

/-! ## Any geometry -/

/-- The size of a pixel may be undefined, but that is no trap. -/
theorem Screen.scale_not_isTrap {d : Display} {s : Screen} {f : Fault}
    (h : s.scale d = .error f) : ¬ f.IsTrap := by
  rw [scale] at h
  split at h
  · cases h
  · exact Fault.quotient_not_isTrap h

namespace Paint

/-- Painting that keeps the resolution and does not trap. -/
def Steady {α : Type} (act : Paint α) : Prop :=
  ∀ on : Bool, Upholds (fun s : Screen => s.extended = on) (fun f => ¬ f.IsTrap)
    (fun _ => True) act

variable (d : Display)

theorem cell_steady (i colour : Int) : Steady (cell i colour) := by
  intro on
  refine Upholds.bind Upholds.get fun s hs => ?_
  split
  · exact Upholds.set hs
  · exact Upholds.throw fun ht => ht

theorem block_steady (k i colour : Int) : Steady (block d k i colour) := by
  intro on
  refine Upholds.forM fun dy _ => ?_
  exact Upholds.forM fun dx _ => cell_steady _ _ on

theorem toggle_steady (k i : Int) : Steady (toggle d k i) := by
  intro on
  refine Upholds.bind Upholds.get fun s _ => ?_
  refine Upholds.bind (Upholds.ofExcept_any ?_) ?_
  · intro f hf ht
    rw [Screen.colourAt] at hf
    split at hf
    · cases hf
    · cases hf
      exact ht
  · intro c _
    refine Upholds.bind (block_steady d k i _ on) fun _ _ => ?_
    exact Upholds.pure trivial

theorem spriteRow_steady (k width base x : Int) (bits : Byte) (hit : Bool) :
    Steady (spriteRow d k width base x bits hit) := by
  intro on
  refine Upholds.foldlM (fun hit _ col _ => ?_) hit trivial
  split
  · refine Upholds.bind (Upholds.ofExcept_any fun f hf => Fault.modulo_not_isTrap hf)
      fun column _ => ?_
    refine Upholds.bind (toggle_steady d k _ on) fun wentDark _ => ?_
    exact Upholds.pure trivial
  · exact Upholds.pure trivial

/-- Drawing a sprite keeps the resolution and does not trap. -/
theorem sprite_steady (memory : Array Byte) (index x y height : Int) :
    Steady (sprite d memory index x y height) := by
  intro on
  refine Upholds.bind Upholds.get fun s _ => ?_
  refine Upholds.bind (Upholds.ofExcept_any fun f hf => Screen.scale_not_isTrap hf) fun k _ => ?_
  refine Upholds.count (fun hit _ row => ?_) trivial
  refine Upholds.bind (Upholds.ofExcept_any fun f hf => Fault.modulo_not_isTrap hf)
    fun place _ => ?_
  refine Upholds.bind (Upholds.ofExcept_any fun f hf => Fault.modulo_not_isTrap hf)
    fun line _ => ?_
  split
  · exact spriteRow_steady d k _ _ _ _ _ on
  · exact Upholds.throw fun ht => ht

end Paint

namespace Screen

variable {d : Display} {s s' : Screen} {n : Int}

/-- What scrolling does, as a choice: nothing, or the cells moved with dark ones before them. -/
theorem scroll_eq {k : Int} (hk : s.scale d = .ok k) :
    s.scroll d n =
      let shift := min (n * k) d.hiresHeight * d.hiresWidth
      if shift = 0 then .ok s
      else (incoming s.cells.size shift).map fun count =>
        { s with
          cells := Cells.splice
            (Cells.splice s.cells shift s.cells.size
              (Cells.slice s.cells 0 (s.cells.size - shift)))
            0 shift (Array.replicate count d.background) } := by
  simp only [scroll, hk, bind, Except.bind]
  split
  · rfl
  · cases incoming s.cells.size (min (n * k) d.hiresHeight * d.hiresWidth) <;> rfl

/-- There may be no room for the lines that come in, but that is no trap. -/
theorem incoming_not_isTrap {total shift : Int} {f : Fault} (h : incoming total shift = .error f) :
    ¬ f.IsTrap := by
  intro ht
  rw [incoming] at h
  split at h
  · cases h
  · rw [Capacity.reserve] at h
    split at h
    · cases h
      exact ht
    · split at h
      · cases h
        exact ht
      · cases h

/-- Scrolling keeps the resolution and does not trap. -/
theorem scroll_steady (s : Screen) (n : Int) :
    (∀ s', s.scroll d n = .ok s' → s'.extended = s.extended) ∧
      ∀ f, s.scroll d n = .error f → ¬ f.IsTrap := by
  cases hk : s.scale d with
  | error f =>
      have hs : s.scroll d n = .error f := by rw [scroll, hk]; rfl
      rw [hs]
      refine ⟨fun s' h => (nomatch h), fun f' h => ?_⟩
      cases h
      exact scale_not_isTrap hk
  | ok k =>
      rw [scroll_eq hk]
      dsimp only
      split
      · refine ⟨fun s' h => ?_, fun f h => (nomatch h)⟩
        cases h
        rfl
      · cases hi : incoming s.cells.size (min (n * k) d.hiresHeight * d.hiresWidth) with
        | error f =>
            refine ⟨fun s' h => (nomatch h), fun f' h => ?_⟩
            cases h
            exact incoming_not_isTrap hi
        | ok count =>
            refine ⟨fun s' h => ?_, fun f h => (nomatch h)⟩
            cases h
            rfl

end Screen

/-! ## The usual geometry -/

/-- A screen of the usual geometry: all its cells are there, and each is lit or dark. -/
structure Screen.Sound (s : Screen) : Prop where
  size : s.cells.size = 128 * 64
  colours : ∀ c ∈ s.cells, c = ({} : Display).foreground ∨ c = ({} : Display).background

/-- The `k` by `k` cells below and to the right of cell `i` are cells of the grid. -/
structure Screen.Holds (k i : Int) : Prop where
  pos : 0 < k
  inside : ∀ dy dx : Nat, dy < k.toNat → dx < k.toNat →
    0 ≤ i + dy * 128 + dx ∧ i + dy * 128 + dx < 128 * 64

namespace Screen

/-- The first of the cells is a cell of the grid. -/
theorem Holds.first {k i : Int} (h : Holds k i) : 0 ≤ i ∧ i < 128 * 64 := by
  have hk := h.pos
  have h₀ := h.inside 0 0 (by omega) (by omega)
  omega

/-- The two resolutions: how fine they are, and what they show. -/
theorem scale_usual (s : Screen) :
    (s.scale {} = .ok 1 ∧ s.width {} = 128 ∧ s.height {} = 64) ∨
      (s.scale {} = .ok 2 ∧ s.width {} = 64 ∧ s.height {} = 32) := by
  cases h : s.extended with
  | true => exact Or.inl (by simp [scale, width, height, h])
  | false =>
      refine Or.inr ⟨?_, ?_, ?_⟩
      · rw [scale, h]
        rfl
      · simp [width, h]
      · simp [height, h]

/-- With the usual geometry the size of a pixel is defined. -/
theorem scale_ne_error (s : Screen) (f : Fault) : s.scale {} ≠ .error f := by
  intro h
  rcases scale_usual s with ⟨hk, _⟩ | ⟨hk, _⟩
  · cases hk.symm.trans h
  · cases hk.symm.trans h

/-- The cells of a pixel are cells of the grid. -/
theorem holds_pixel {s : Screen} {k line column : Int} (hk : s.scale {} = .ok k)
    (hl₀ : 0 ≤ line) (hl : line < s.height {}) (hc₀ : 0 ≤ column) (hc : column < s.width {}) :
    Holds k (corner {} k 0 line + column * k) := by
  rcases scale_usual s with ⟨hk', hw, hh⟩ | ⟨hk', hw, hh⟩
  · obtain rfl : k = 1 := Except.ok.inj (hk.symm.trans hk')
    refine ⟨by decide, fun dy dx hy hx => ?_⟩
    simp only [corner]
    omega
  · obtain rfl : k = 2 := Except.ok.inj (hk.symm.trans hk')
    refine ⟨by decide, fun dy dx hy hx => ?_⟩
    simp only [corner]
    omega

/-- A screen that was cleared has the same number of cells, all of them dark. -/
theorem Sound.clear {s : Screen} (hs : s.Sound) : (s.clear {}).Sound := by
  refine ⟨?_, fun c hc => ?_⟩
  · rw [size_clear]
    exact hs.size
  · have hc : c ∈ Array.replicate s.cells.size ({} : Display).background := hc
    exact Or.inr (Array.eq_of_mem_replicate hc)

theorem Sound.setExtended {s : Screen} (hs : s.Sound) (on : Bool) : (s.setExtended on).Sound :=
  ⟨hs.size, hs.colours⟩

theorem blank_sound : (blank {}).Sound := by
  refine ⟨Array.size_replicate, fun c hc => ?_⟩
  exact Or.inr (Array.eq_of_mem_replicate hc)

/-- Moving the cells down keeps a screen sound. -/
theorem Sound.moved {s : Screen} (hs : s.Sound) {m : Nat} (hm : m ≤ 128 * 64) :
    Sound { s with
      cells := Cells.splice
        (Cells.splice s.cells m s.cells.size (Cells.slice s.cells 0 (s.cells.size - m)))
        0 m (Array.replicate m ({} : Display).background) } := by
  have hsize := hs.size
  have hrest : (s.cells.size : Int) - m = (s.cells.size - m : Nat) := by omega
  refine ⟨?_, fun c hc => ?_⟩
  · have hmoved : (Cells.splice s.cells m s.cells.size
        (Cells.slice s.cells 0 (s.cells.size - m : Nat))).size = 128 * 64 := by
      rw [Cells.size_splice, Cells.bound_natCast (by omega), Cells.bound_natCast (by omega),
        Cells.slice, Array.size_extract, Cells.bound_zero, Cells.bound_natCast (by omega)]
      omega
    rw [hrest]
    show (Cells.splice _ _ _ _).size = _
    rw [Cells.size_splice, hmoved, Cells.bound_zero, Cells.bound_natCast (by omega),
      Array.size_replicate]
    omega
  · rcases Cells.mem_of_mem_splice hc with hc | hc
    · rcases Cells.mem_of_mem_splice hc with hc | hc
      · exact hs.colours c hc
      · exact hs.colours c (Cells.mem_of_mem_slice hc)
    · exact Or.inr (Array.eq_of_mem_replicate hc)

/-- Scrolling by a number of pixels that is not negative succeeds and keeps a screen sound. -/
theorem Sound.scroll {s : Screen} (hs : s.Sound) {n : Int} (hn : 0 ≤ n) :
    ∃ s', s.scroll {} n = .ok s' ∧ s'.Sound := by
  obtain ⟨k, hk, hpos⟩ : ∃ k, s.scale {} = .ok k ∧ 0 ≤ k := by
    rcases scale_usual s with ⟨hk, _⟩ | ⟨hk, _⟩ <;> exact ⟨_, hk, by decide⟩
  rw [scroll_eq hk]
  dsimp only
  have hnk : 0 ≤ n * k := Int.mul_nonneg hn hpos
  split
  · exact ⟨s, rfl, hs⟩
  · obtain ⟨m, hm⟩ : ∃ m : Nat, min (n * k) 64 * 128 = (m : Int) :=
      ⟨_, (Int.toNat_of_nonneg (by omega)).symm⟩
    have hle : m ≤ 128 * 64 := by omega
    rw [show min (n * k) ({} : Display).hiresHeight * ({} : Display).hiresWidth = (m : Int)
      from hm]
    have hin : incoming s.cells.size m = .ok m := by
      have hsize := hs.size
      rw [incoming, if_pos (by omega)]
      rfl
    rw [hin]
    exact ⟨_, rfl, hs.moved hle⟩

/-- A cell of the grid that is named by its number. -/
theorem Sound.position {s : Screen} (hs : s.Sound) {i : Int} (h : 0 ≤ i ∧ i < 128 * 64) :
    ∃ p, Cells.position? s.cells.size i = some p := by
  obtain ⟨n, rfl⟩ := Int.eq_ofNat_of_zero_le h.1
  have hn : n < s.cells.size := by
    rw [hs.size]
    omega
  exact ⟨⟨n, hn⟩, Cells.position?_natCast hn⟩

end Screen

namespace Paint

open Screen (Sound Holds)

/-- Painting that keeps a screen sound and cannot fail. -/
def Safe {α : Type} (act : Paint α) : Prop :=
  Upholds Sound (fun _ => False) (fun _ => True) act

/-- A cell of the grid may take one of the two colours. -/
theorem cell_safe {i colour : Int} (hi : 0 ≤ i ∧ i < 128 * 64)
    (hc : colour = ({} : Display).foreground ∨ colour = ({} : Display).background) :
    Safe (cell i colour) := by
  refine Upholds.bind Upholds.get fun s hs => ?_
  obtain ⟨p, hp⟩ := hs.position hi
  rw [hp]
  refine Upholds.set ⟨?_, ?_⟩
  · rw [Array.size_set]
    exact hs.size
  · intro c hmem
    have hmem : c ∈ s.cells.set p colour := hmem
    rcases Array.mem_or_eq_of_mem_set hmem with hmem | rfl
    · exact hs.colours c hmem
    · exact hc

theorem block_safe {k i colour : Int} (hi : Holds k i)
    (hc : colour = ({} : Display).foreground ∨ colour = ({} : Display).background) :
    Safe (block {} k i colour) := by
  refine Upholds.forM fun dy hy => Upholds.forM fun dx hx => ?_
  exact cell_safe (hi.inside dy dx (List.mem_range.1 hy) (List.mem_range.1 hx)) hc

/-- A pixel takes the other one of the two colours. -/
theorem toggle_safe {k i : Int} (hi : Holds k i) : Safe (toggle {} k i) := by
  refine Upholds.bind Upholds.get fun s hs => ?_
  refine Upholds.bind (Upholds.ofExcept_any ?_) ?_
  · intro f hf
    obtain ⟨p, hp⟩ := hs.position hi.first
    rw [Screen.colourAt, Cells.get?, hp] at hf
    cases hf
  · intro c _
    refine Upholds.bind (block_safe hi ?_) fun _ _ => Upholds.pure trivial
    split
    · exact Or.inr rfl
    · exact Or.inl rfl

/-- A row of a sprite wraps at the width of the screen, so its pixels are on the grid. -/
theorem spriteRow_safe {k width base x : Int} (bits : Byte) (hit : Bool) (hw : 0 < width)
    (hbase : ∀ column, 0 ≤ column → column < width → Holds k (base + column * k)) :
    Safe (spriteRow {} k width base x bits hit) := by
  refine Upholds.foldlM (fun hit _ col _ => ?_) hit trivial
  split
  · refine Upholds.bind (Upholds.ofExcept (fun column h => Fault.modulo_inRange hw h)
      fun f h => Fault.modulo_ne_error hw f h) fun column hcolumn => ?_
    refine Upholds.bind (toggle_safe (hbase column hcolumn.1 hcolumn.2)) fun wentDark _ => ?_
    exact Upholds.pure trivial
  · exact Upholds.pure trivial

/-- Drawing a sprite from memory that is not empty keeps a screen sound and cannot fail. -/
theorem sprite_safe {memory : Array Byte} (index x y height : Int) (hm : 0 < memory.size) :
    Safe (sprite {} memory index x y height) := by
  refine Upholds.bind Upholds.get fun s _ => ?_
  have hsize : 0 < s.width {} ∧ 0 < s.height {} := by
    rcases Screen.scale_usual s with ⟨_, hw, hh⟩ | ⟨_, hw, hh⟩ <;> omega
  refine Upholds.bind (Upholds.ofExcept (fun k hk => hk)
    fun f hf => Screen.scale_ne_error s f hf) fun k hk => ?_
  refine Upholds.count (fun hit _ row => ?_) trivial
  have hmem : (0 : Int) < memory.size := by omega
  -- the row of the sprite wraps in memory, its line on the screen
  refine Upholds.bind (Upholds.ofExcept (fun place h => Fault.modulo_inRange hmem h)
    fun f h => Fault.modulo_ne_error hmem f h) fun place hplace => ?_
  refine Upholds.bind (Upholds.ofExcept (fun line h => Fault.modulo_inRange hsize.2 h)
    fun f h => Fault.modulo_ne_error hsize.2 f h) fun line hline => ?_
  obtain ⟨n, rfl⟩ := Int.eq_ofNat_of_zero_le hplace.1
  have hn : n < memory.size := by omega
  rw [Cells.get?_natCast, Array.getElem?_eq_getElem hn]
  exact spriteRow_safe _ hit hsize.1 fun column h₀ h₁ =>
    Screen.holds_pixel hk hline.1 hline.2 h₀ h₁

end Paint

end Chip8
