import Chip8.Proofs.Screen.Refinement

/-!
# Drawing a sprite twice

A pixel that is flipped twice gets the colour that its first cell had, in all its cells
(`Screen.Tiled.getElem?_flips_twice`). On a screen that shows a picture the second drawing of a
sprite therefore undoes the first (`Screen.Shows.sprite_undone`). But the cells survive a change of
the resolution, so a pixel of low resolution may have cells of both colours, and drawing over it
loses them (`Screen.Tiled.flips_twice_eq_iff`). Screens with such pixels do come about: see
`Screen.Reachable` and `Screen.reachable_mixed`.
-/

namespace Chip8

namespace Screen

variable {d : Display} {k rows cols : Nat} {b : Bitmap} {s : Screen}

/-- Flipping the same pixels twice leaves the first cell of each as it was, and gives its colour to
    the other cells of the pixel. -/
theorem Tiled.getElem?_flips_twice (h : s.Tiled d k rows cols)
    (hcolours : d.foreground ≠ d.background)
    (htwo : ∀ c ∈ s.cells, c = d.foreground ∨ c = d.background) (places : List (Nat × Nat))
    (hit again : Bool) {i : Nat} (hi : i < s.cells.size) :
    ((s.flips d k places hit).2.flips d k places again).2.cells[i]? =
      s.cells[if owner d k i ∈ places then first d k (owner d k i) else i]? := by
  obtain ⟨hrow, hcol⟩ := h.owner_lt hi
  have honce := h.flips places hit
  rw [honce.getElem?_flips hcolours _ _ (by rwa [size_flips]),
    h.getElem?_flips hcolours places hit hi]
  by_cases hp : owner d k i ∈ places
  · -- the parity of the flips cancels, and the first cell tells the colour
    have hlt := h.first_lt hrow hcol
    rw [if_pos hp, if_pos hp, honce.lit_flips hcolours hrow hcol,
      h.lit_flips hcolours hrow hcol, Bool.xor_assoc, Bool.xor_self, Bool.xor_false, lit,
      Array.getElem?_eq_getElem hlt, Option.any_some]
    rcases htwo _ (Array.getElem_mem hlt) with hc | hc
    · simp [hc, hcolours]
    · simp [hc]
  · rw [if_neg hp, if_neg hp, if_neg hp]

/-- Whether flipping pixels twice leaves no trace: they must be of one colour each. -/
theorem Tiled.flips_twice_eq_iff (h : s.Tiled d k rows cols)
    (hcolours : d.foreground ≠ d.background)
    (htwo : ∀ c ∈ s.cells, c = d.foreground ∨ c = d.background) (places : List (Nat × Nat))
    (hit again : Bool) :
    ((s.flips d k places hit).2.flips d k places again).2 = s ↔
      ∀ i < s.cells.size, owner d k i ∈ places →
        s.cells[i]? = s.cells[first d k (owner d k i)]? := by
  have hcell := fun i (hi : i < s.cells.size) =>
    h.getElem?_flips_twice hcolours htwo places hit again hi
  constructor
  · intro heq i hi hp
    have hi' := hcell i hi
    rwa [heq, if_pos hp] at hi'
  · intro huniform
    refine ext_cells (by simp) fun i => ?_
    by_cases hi : i < s.cells.size
    · rw [hcell i hi]
      by_cases hp : owner d k i ∈ places
      · rw [if_pos hp, huniform i hi hp]
      · rw [if_neg hp]
    · rw [Array.getElem?_eq_none (by simp; omega), Array.getElem?_eq_none (by omega)]

/-- On a screen that shows a picture, flipping pixels twice leaves no trace. -/
theorem Shows.flips_twice (h : s.Shows d k rows cols b) (hcolours : d.foreground ≠ d.background)
    (places : List (Nat × Nat)) (hit again : Bool) :
    ((s.flips d k places hit).2.flips d k places again).2 = s := by
  refine (h.tiled.flips_twice_eq_iff hcolours ?_ places hit again).2 fun i hi _ => ?_
  · intro c hc
    obtain ⟨i, hi, rfl⟩ := Array.getElem_of_mem hc
    have hcell := h.getElem? hi
    rw [Array.getElem?_eq_getElem hi, Option.some_inj] at hcell
    rw [hcell]
    split
    · exact Or.inl rfl
    · exact Or.inr rfl
  · obtain ⟨hrow, hcol⟩ := h.tiled.owner_lt hi
    rw [h.getElem? hi, h.getElem? (h.tiled.first_lt hrow hcol), h.tiled.owner_first hcol]

/-- On a screen that shows a picture, the second drawing of a sprite undoes the first. -/
theorem Shows.sprite_undone (h : s.Shows d k rows cols b) (hcolours : d.foreground ≠ d.background)
    {memory : Array Byte} (hmemory : 0 < memory.size) (index x y height : Int) :
    ∃ hit again s₁, (Paint.sprite d memory index x y height).run s = .ok hit s₁ ∧
      (Paint.sprite d memory index x y height).run s₁ = .ok again s := by
  have hagain := Paint.sprite_run (h.tiled.flips (spritePixels memory rows cols index x y
    height.toNat) false) hmemory index x y height
  dsimp only at hagain
  rw [h.flips_twice hcolours] at hagain
  exact ⟨_, _, _, Paint.sprite_run h.tiled hmemory index x y height, hagain⟩

/-! ## Every screen that can come about -/

/-- What strokes, changes of the resolution and resets make of a new screen. -/
inductive Reachable : Screen → Prop
  | create {s : Screen} (h : create {} = .ok s) : Reachable s
  | stroke {s s' : Screen} {st : Stroke} {answer : Option Bool} (hs : Reachable s)
      (hst : st.Proper) (h : (st.paint {}).run s = .ok answer s') : Reachable s'
  | setExtended {s : Screen} (on : Bool) (hs : Reachable s) : Reachable (s.setExtended on)
  | reset {s : Screen} (hs : Reachable s) : Reachable (s.reset {})

end Screen

/-- A stroke keeps a screen sound and cannot fail. -/
theorem Stroke.paint_safe {st : Stroke} (h : st.Proper) : Paint.Safe (st.paint {}) := by
  cases st with
  | draw memory index x y height =>
      refine Upholds.bind (Paint.sprite_safe index x y height h) fun hit _ => ?_
      exact Upholds.pure trivial
  | clear =>
      refine Upholds.bind (Upholds.modify fun s hs => hs.clear) fun _ _ => ?_
      exact Upholds.pure trivial
  | scroll n =>
      refine Upholds.bind Upholds.get fun s hs => ?_
      have hscroll : ∀ f, s.scroll {} n ≠ .error f := by
        intro f hf
        obtain ⟨s', hs', _⟩ := hs.scroll h
        cases hs'.symm.trans hf
      have hsound : ∀ s', s.scroll {} n = .ok s' → s'.Sound := by
        intro t ht
        obtain ⟨s', hs', hsound⟩ := hs.scroll h
        obtain rfl := Except.ok.inj (hs'.symm.trans ht)
        exact hsound
      refine Upholds.bind (Upholds.ofExcept hsound hscroll) fun s' hs' => ?_
      exact Upholds.bind (Upholds.set hs') fun _ _ => Upholds.pure trivial

namespace Screen

/-- Every screen that programs can come to has cells of the two colours only. -/
theorem Reachable.sound {s : Screen} (h : Reachable s) : s.Sound := by
  induction h with
  | create h =>
      obtain rfl := Except.ok.inj h
      exact blank_sound
  | stroke _ hst h ih =>
      have hsafe := Stroke.paint_safe hst _ ih
      rw [h] at hsafe
      exact hsafe.2
  | setExtended on _ ih => exact ih.setExtended on
  | reset _ ih => exact ih.clear.setExtended false

/-- **When a second drawing undoes the first.** On every screen that can come about, both
    drawings succeed. They leave the pixels under the sprite in the colours that their first
    cells had and all other cells alone. So the screen is as before if and only if no pixel under
    the sprite had cells of both colours, which is always so in high resolution. -/
theorem sprite_twice {s : Screen} (hs : Reachable s) {memory : Array Byte}
    (hmemory : 0 < memory.size) (index x y height : Int) :
    ∃ (k rows cols : Nat) (hit again : Bool) (s₁ s₂ : Screen),
      s.scale {} = .ok k ∧ s.height {} = rows ∧ s.width {} = cols ∧
      (Paint.sprite {} memory index x y height).run s = .ok hit s₁ ∧
      (Paint.sprite {} memory index x y height).run s₁ = .ok again s₂ ∧
      let places := spritePixels memory rows cols index x y height.toNat
      (∀ i < 128 * 64, s₂.cells[i]? =
        s.cells[if owner {} k i ∈ places then first {} k (owner {} k i) else i]?) ∧
      (s₂ = s ↔ ∀ i < 128 * 64, owner {} k i ∈ places →
        s.cells[i]? = s.cells[first {} k (owner {} k i)]?) ∧
      (s.extended = true → s₂ = s) := by
  obtain ⟨hsize, htwo⟩ := hs.sound
  -- in high resolution a pixel is a cell
  obtain ⟨k, rows, cols, htiled, hfine⟩ : ∃ k rows cols, s.Tiled {} k rows cols ∧
      (s.extended = true → k = 1) := by
    have htiled := tiled_usual 0xFFFFFFFF 0xFF000000 hsize
    cases hmode : s.extended with
    | true =>
        rw [hmode, if_pos rfl] at htiled
        exact ⟨1, 64, 128, htiled, fun _ => rfl⟩
    | false =>
        rw [hmode] at htiled
        exact ⟨2, 32, 64, htiled, nofun⟩
  have hcolours : ({} : Display).foreground ≠ ({} : Display).background := by decide
  have honce := Paint.sprite_run htiled hmemory index x y height
  have hagain := Paint.sprite_run (htiled.flips (spritePixels memory rows cols index x y
    height.toNat) false) hmemory index x y height
  have hiff := htiled.flips_twice_eq_iff hcolours htwo
    (spritePixels memory rows cols index x y height.toNat) false false
  refine ⟨k, rows, cols, _, _, _, _, htiled.scale, htiled.height, htiled.width, honce, hagain,
    fun i hi => ?_, ?_, fun hmode => ?_⟩
  · exact htiled.getElem?_flips_twice hcolours htwo _ false false (hsize ▸ hi)
  · rwa [hsize] at hiff
  · obtain rfl := hfine hmode
    exact hiff.2 fun i _ _ => by rw [first_owner_one]

/-- In high resolution a sprite at the last pixel wraps at both edges, and a second drawing restores
    the dark screen. -/
theorem sprite_twice_fine :
    Reachable ((blank {}).setExtended true) ∧ 0 < (#[0xF0, 0x90, 0x90, 0xF0] : Array Byte).size ∧
      ∃ hit again s₁,
        (Paint.sprite {} #[0xF0, 0x90, 0x90, 0xF0] 0 127 63 4).run ((blank {}).setExtended true)
          = .ok hit s₁ ∧
        (Paint.sprite {} #[0xF0, 0x90, 0x90, 0xF0] 0 127 63 4).run s₁
          = .ok again ((blank {}).setExtended true) := by
  have hs : Reachable ((blank {}).setExtended true) := .setExtended true (.create rfl)
  have hmemory : 0 < (#[0xF0, 0x90, 0x90, 0xF0] : Array Byte).size := by decide
  obtain ⟨_, _, _, hit, again, s₁, s₂, _, _, _, honce, hagain, _, _, hfine⟩ :=
    sprite_twice hs hmemory 0 127 63 4
  obtain rfl := hfine rfl
  exact ⟨hs, hmemory, hit, again, s₁, honce, hagain⟩

/-- A screen in low resolution is reachable if it is in high resolution. -/
theorem Reachable.of_setExtended {s : Screen} (h : Reachable (s.setExtended true))
    (hmode : s.extended = false) : Reachable s := by
  cases s
  obtain rfl := hmode
  exact h.setExtended false

/-- A screen with one cell lit, in low resolution. -/
theorem reachable_mixed : Reachable ((blank {}).fill (· == 1) ({} : Display).foreground) := by
  have hmemory : 0 < (#[0x80] : Array Byte).size := by decide
  have hnew : Reachable ((blank {}).setExtended true) := .setExtended true (.create rfl)
  have htiled : ((blank {}).setExtended true).Tiled {} 1 64 128 :=
    tiled_usual 0xFFFFFFFF 0xFF000000 hnew.sound.size
  have hdark := htiled.shows_dark fun c hc => Array.eq_of_mem_replicate hc
  have hlit : ((blank {}).setExtended true).lit {} 1 (0, 1) = false :=
    hdark.lit (by decide) (show 0 < 64 by decide) (show 1 < 128 by decide)
  have howner : ∀ i, (owner {} 1 i == (0, 1)) = (i == 1) := by
    intro i
    rw [Bool.eq_iff_iff, beq_iff_eq, beq_iff_eq]
    constructor
    · intro h
      have hfirst := first_owner_one {} i
      rw [h] at hfirst
      exact hfirst.symm
    · rintro rfl
      rfl
  have hflip : ((blank {}).setExtended true).flip {} 1 (0, 1)
      = ((blank {}).fill (· == 1) ({} : Display).foreground).setExtended true := by
    rw [flip, hlit, setExtended_fill]
    simp only [howner, Bool.false_eq_true, if_false]
  -- drawn in high resolution, where a pixel is one cell
  have hplaces : spritePixels #[0x80] 64 128 0 1 0 1 = [(0, 1)] := by decide
  have hrun := Paint.sprite_run htiled hmemory 0 1 0 1
  rw [show Int.toNat 1 = 1 from rfl, hplaces, flips, flips, hlit, hflip] at hrun
  have hdraw : ((Stroke.draw #[0x80] 0 1 0 1).paint {}).run ((blank {}).setExtended true)
      = .ok (some false)
        (((blank {}).fill (· == 1) ({} : Display).foreground).setExtended true) := by
    rw [Stroke.paint, run_bind_of_ok hrun]
    rfl
  have hproper : (Stroke.draw #[0x80] 0 1 0 1).Proper := hmemory
  exact (hnew.stroke hproper hdraw).of_setExtended rfl

/-- One cell that was lit in high resolution is lost when a sprite is drawn twice over it in low
    resolution. -/
theorem sprite_twice_mixed :
    let s := (blank {}).fill (· == 1) ({} : Display).foreground
    Reachable s ∧ ¬ ∃ hit again s₁ s₂,
      (Paint.sprite {} #[0x80] 0 0 0 1).run s = .ok hit s₁ ∧
      (Paint.sprite {} #[0x80] 0 0 0 1).run s₁ = .ok again s₂ ∧ s₂.cells = s.cells := by
  intro s
  have hs : Reachable s := reachable_mixed
  have hmemory : 0 < (#[0x80] : Array Byte).size := by decide
  have hcolours : ({} : Display).foreground ≠ ({} : Display).background := by decide
  refine ⟨hs, ?_⟩
  rintro ⟨hit, again, s₁, s₂, honce, hagain, hcells⟩
  have htiled : s.Tiled {} 2 32 64 := tiled_usual 0xFFFFFFFF 0xFF000000 hs.sound.size
  have hplaces : spritePixels #[0x80] 32 64 0 0 0 1 = [(0, 0)] := by decide
  have honce' := honce.symm.trans (Paint.sprite_run htiled hmemory 0 0 0 1)
  obtain ⟨-, rfl⟩ := EStateM.Result.ok.inj honce'
  have hagain' := hagain.symm.trans (Paint.sprite_run (htiled.flips _ false) hmemory 0 0 0 1)
  obtain ⟨-, rfl⟩ := EStateM.Result.ok.inj hagain'
  have hsize : 1 < s.cells.size := by
    rw [hs.sound.size]
    decide
  -- the second cell comes back as the first one was
  have hlost := htiled.getElem?_flips_twice hcolours hs.sound.colours [(0, 0)] false false hsize
  have howner : owner {} 2 1 ∈ [(0, 0)] := by decide
  rw [show Int.toNat 1 = 1 from rfl, hplaces] at hcells
  rw [hcells, if_pos howner, getElem?_fill, getElem?_fill] at hlost
  have hblank : ∀ i < 128 * 64, (blank {}).cells[i]? = some ({} : Display).background := by
    intro i hi
    rw [blank, Array.getElem?_replicate]
    exact if_pos hi
  rw [hblank 1 (by decide), hblank _ (by decide)] at hlost
  cases hlost

end Screen

end Chip8
