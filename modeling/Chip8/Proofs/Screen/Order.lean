import Chip8.Proofs.Screen.Sprite

/-!
# The order of sprites

Two pixels may be flipped in either order: each one is flipped as its own first cell says, and no
cell belongs to both (`Screen.flip_comm`). So it does not matter in which order any number of pixels
are flipped, how often each of them is among them and of which colours its cells are
(`Screen.Tiled.flips_perm`). The same holds for sprites that are drawn one after the other, however
they overlap (`Screen.sprites_commute`).
-/

namespace Chip8

namespace Screen

variable {d : Display} {k rows cols : Nat} {s : Screen}

/-- The order of two flips does not matter. -/
theorem flip_comm {p q : Nat × Nat} (hp : owner d k (first d k p) = p)
    (hq : owner d k (first d k q) = q) (s : Screen) :
    (s.flip d k p).flip d k q = (s.flip d k q).flip d k p := by
  by_cases hpq : p = q
  · rw [hpq]
  · have hlitq : (s.flip d k p).lit d k q = s.lit d k q := lit_flip_of_ne d k hq (Ne.symm hpq)
    have hlitp : (s.flip d k q).lit d k p = s.lit d k p := lit_flip_of_ne d k hp hpq
    rw [flip, hlitq, flip.eq_def d k p (s.flip d k q), hlitp]
    refine fill_comm (fun i hi => ?_) _ _
    rw [beq_iff_eq] at hi
    rw [hi]
    exact beq_false_of_ne hpq

namespace Tiled

/-- The order of any number of flips does not matter. -/
theorem flips_perm (h : s.Tiled d k rows cols) {ps qs : List (Nat × Nat)} (hperm : ps.Perm qs)
    (hcols : ∀ p ∈ ps, p.2 < cols) (hit again : Bool) :
    (s.flips d k ps hit).2 = (s.flips d k qs again).2 := by
  rw [flips_snd, flips_snd]
  refine hperm.foldl_eq' (fun p hp q hq t => ?_) s
  exact flip_comm (h.owner_first (hcols p hp)) (h.owner_first (hcols q hq)) t

/-- The order of two stretches of flips does not matter. -/
theorem flips_comm (h : s.Tiled d k rows cols) {ps qs : List (Nat × Nat)}
    (hps : ∀ p ∈ ps, p.2 < cols) (hqs : ∀ q ∈ qs, q.2 < cols) :
    ((s.flips d k ps false).2.flips d k qs false).2
      = ((s.flips d k qs false).2.flips d k ps false).2 := by
  have hperm : (ps ++ qs).Perm (qs ++ ps) := List.perm_append_comm
  have hswap := h.flips_perm hperm (fun p hp => (List.mem_append.1 hp).elim (hps p) (hqs p))
    false false
  simpa only [flips_snd, List.foldl_append] using hswap

/-- Drawing sprites in turn flips the pixels of all of them. -/
theorem sprites_run (h : s.Tiled d k rows cols) {sprites : List Sprite}
    (hmemory : ∀ sp ∈ sprites, 0 < sp.memory.size) :
    ∃ answers, (sprites.mapM (Sprite.paint d)).run s
      = .ok answers (s.flips d k (sprites.flatMap (Sprite.pixels rows cols)) false).2 := by
  induction sprites generalizing s with
  | nil => exact ⟨[], rfl⟩
  | cons sp sprites ih =>
      have hfirst := h.paint_run (hmemory sp List.mem_cons_self)
      obtain ⟨answers, hrest⟩ := ih (h.flips (sp.pixels rows cols) false)
        fun sp' hsp' => hmemory sp' (List.mem_cons_of_mem sp hsp')
      refine ⟨(s.flips d k (sp.pixels rows cols) false).1 :: answers, ?_⟩
      rw [List.mapM_cons, run_bind_of_ok hfirst, run_bind_of_ok hrest,
        List.flatMap_cons, flips_append, flips_snd, flips_snd _ _ _ (s.flips d k _ false).1]
      rfl

end Tiled

/-- **Sprites commute.** On a full grid of the usual size, whatever its cells hold and whatever the
    two colours are, two sprites leave the same screen in either order, and so does any number of
    sprites in any order. -/
theorem sprites_commute (fore back : Int) {s : Screen} (hsize : s.cells.size = 128 * 64) :
    let d : Display := { foreground := fore, background := back }
    (∀ p q : Sprite, 0 < p.memory.size → 0 < q.memory.size →
      ∃ hit₁ hit₂ hit₃ hit₄ s₁ s₂ s',
        (p.paint d).run s = .ok hit₁ s₁ ∧ (q.paint d).run s₁ = .ok hit₂ s' ∧
        (q.paint d).run s = .ok hit₃ s₂ ∧ (p.paint d).run s₂ = .ok hit₄ s') ∧
      ∀ sprites sprites' : List Sprite, sprites.Perm sprites' →
        (∀ sp ∈ sprites, 0 < sp.memory.size) →
        ∃ answers answers' s', (sprites.mapM (Sprite.paint d)).run s = .ok answers s' ∧
          (sprites'.mapM (Sprite.paint d)).run s = .ok answers' s' := by
  intro d
  obtain ⟨k, rows, cols, h, -, -⟩ := exists_tiled fore back hsize
  refine ⟨fun p q hp hq => ?_, fun sprites sprites' hperm hmemory => ?_⟩
  · -- two sprites are two lists of flips, and the screen does not depend on which comes first
    have hq₂ := (h.flips (p.pixels rows cols) false).paint_run hq
    have hp₂ := (h.flips (q.pixels rows cols) false).paint_run hp
    have hsame := h.flips_comm (fun place hplace => (h.lt_of_mem_pixels p place hplace).2)
      fun place hplace => (h.lt_of_mem_pixels q place hplace).2
    rw [← hsame] at hp₂
    exact ⟨_, _, _, _, _, _, _, h.paint_run hp, hq₂, h.paint_run hq, hp₂⟩
  · -- many sprites are one list of flips, which is permuted where they are
    obtain ⟨answers, hrun⟩ := h.sprites_run hmemory
    have hmemory' : ∀ sp ∈ sprites', 0 < sp.memory.size := fun sp hsp =>
      hmemory sp (hperm.mem_iff.2 hsp)
    obtain ⟨answers', hrun'⟩ := h.sprites_run hmemory'
    have hsame := h.flips_perm (hperm.flatMap_right (Sprite.pixels rows cols)) (fun p hp => by
      obtain ⟨sp, _, hmem⟩ := List.mem_flatMap.1 hp
      exact (h.lt_of_mem_pixels sp p hmem).2) false false
    exact ⟨answers, answers', _, hrun, hsame ▸ hrun'⟩

/-- Low resolution, and a pixel with cells of both colours. A sprite of 33 rows, which meets the
    first line twice, and one that wraps into that pixel from the last column and the last line. -/
theorem sprites_commute_mixed :
    let s := (blank {}).fill (· == 1) 0xFFFFFFFF
    let tall : Sprite := ⟨#[0xC0], 0, 0, 0, 33⟩
    let corner : Sprite := ⟨#[0xC0, 0x40], 0, 63, 31, 2⟩
    s.cells.size = 128 * 64 ∧ 0 < tall.memory.size ∧ 0 < corner.memory.size ∧
      ∃ hit₁ hit₂ hit₃ hit₄ s₁ s₂ s',
        (tall.paint {}).run s = .ok hit₁ s₁ ∧ (corner.paint {}).run s₁ = .ok hit₂ s' ∧
        (corner.paint {}).run s = .ok hit₃ s₂ ∧ (tall.paint {}).run s₂ = .ok hit₄ s' := by
  intro s tall corner
  have hsize : s.cells.size = 128 * 64 := size_fill.trans Array.size_replicate
  have htall : 0 < tall.memory.size := by decide
  have hcorner : 0 < corner.memory.size := by decide
  obtain ⟨hpair, -⟩ := sprites_commute 0xFFFFFFFF 0xFF000000 hsize
  exact ⟨hsize, htall, hcorner, hpair tall corner htall hcorner⟩

end Screen

end Chip8
