import Chip8.Machine.Dump
import Chip8.Proofs.Machine.Valid
import Chip8.Screen.Render

/-!
# Reports on a machine

At the end of a run the machine is reported on in text, and its screen may be printed. Both look at
registers, cells and the delay timer and fail if one of them is not there. A machine of the usual
shape has them all, so that its screen can be printed (`Screen.Sound.exists_render`), and so can the
machine itself if its delay timer can be read (`Machine.exists_dump`).
-/

namespace Chip8

/-- A loop over a list succeeds if every turn does. -/
theorem exists_mapM_ok {ε α β : Type} {f : α → Except ε β} {l : List α}
    (h : ∀ a ∈ l, ∃ b, f a = .ok b) : ∃ bs, l.mapM f = .ok bs := by
  induction l with
  | nil => exact ⟨[], rfl⟩
  | cons a l ih =>
      obtain ⟨b, hb⟩ := h a List.mem_cons_self
      obtain ⟨bs, hbs⟩ := ih fun a ha => h a (List.mem_cons_of_mem _ ha)
      refine ⟨b :: bs, ?_⟩
      rw [List.mapM_cons, hb, hbs]
      rfl

theorem Count.exists_mapM_ok {ε α : Type} {act : Nat → Except ε α} {n : Nat}
    (h : ∀ k < n, ∃ a, act k = .ok a) : ∃ answers, Count.mapM act 0 n = .ok answers := by
  obtain ⟨bs, hbs⟩ := Chip8.exists_mapM_ok (l := List.range' 0 n) fun k hk =>
    h k (by simpa using List.mem_range'_1.1 hk)
  refine ⟨bs.toArray, ?_⟩
  rw [Count.mapM_eq_mapM, List.mapM_toArray, hbs]
  rfl

namespace Screen

/-- Every pixel of a sound screen can be looked at. -/
theorem Sound.exists_pixel {s : Screen} (hs : s.Sound) {x y : Int} (hx : 0 ≤ x ∧ x < s.width {})
    (hy : 0 ≤ y ∧ y < s.height {}) : ∃ b, s.pixel {} x y = .ok b := by
  obtain ⟨k, hk⟩ : ∃ k, s.scale {} = .ok k := by
    rcases scale_usual s with ⟨hk, -⟩ | ⟨hk, -⟩
    · exact ⟨1, hk⟩
    · exact ⟨2, hk⟩
  have hcell := (holds_pixel hk hy.1 hy.2 hx.1 hx.2).first
  have hcorner : corner {} k 0 y + x * k = corner {} k x y := by
    simp only [corner]
    omega
  rw [hcorner] at hcell
  obtain ⟨p, hp⟩ := hs.position hcell
  have hcolour : s.colourAt (corner {} k x y) = .ok s.cells[p] := by
    rw [colourAt, Cells.get?, hp]
    rfl
  refine ⟨s.cells[p] != ({} : Display).background, ?_⟩
  rw [pixel, hk]
  show (do let c ← s.colourAt (corner {} k x y); pure (c != ({} : Display).background)) = _
  rw [hcolour]
  rfl

/-- A sound screen can be printed. -/
theorem Sound.exists_render {s : Screen} (hs : s.Sound) (on off : String) :
    ∃ picture, s.render {} on off = .ok picture := by
  have hrow : ∀ y : Nat, y < (s.height {}).toNat → ∃ row, s.renderRow {} on off y = .ok row := by
    intro y hy
    obtain ⟨marks, hmarks⟩ : ∃ marks, Count.mapM
        (fun x : Nat => do return if ← s.pixel {} x y then on else off) 0 (s.width {}).toNat
        = .ok marks := by
      refine Count.exists_mapM_ok fun x hx => ?_
      obtain ⟨b, hb⟩ := hs.exists_pixel (x := x) (y := y) (by omega) (by omega)
      refine ⟨if b then on else off, ?_⟩
      rw [hb]
      rfl
    refine ⟨String.join marks.toList, ?_⟩
    rw [renderRow, hmarks]
    rfl
  obtain ⟨rows, hrows⟩ := Count.exists_mapM_ok hrow
  refine ⟨"\n".intercalate rows.toList, ?_⟩
  rw [render, hrows]
  rfl

end Screen

namespace Machine

/-- Four registers that exist can be shown in a row. -/
theorem exists_dumpRow {m : Machine} (h : m.registers.size = 16) {x : Nat} (hx : x + 3 < 16) :
    ∃ row, m.dumpRow x = .ok row := by
  have hregister : ∀ y ∈ [x, x + 1, x + 2, x + 3], ∃ entry, m.dumpRegister y = .ok entry := by
    intro y hy
    have hlt : y < m.registers.size := by
      simp only [List.mem_cons, List.not_mem_nil, or_false] at hy
      omega
    rw [dumpRegister, Array.getElem?_eq_getElem hlt]
    exact ⟨_, rfl⟩
  obtain ⟨entries, hentries⟩ := exists_mapM_ok hregister
  refine ⟨"  " ++ " ".intercalate entries, ?_⟩
  rw [dumpRow, hentries]
  rfl

/-- A machine can be reported on if its delay timer can be read. -/
theorem exists_dump {m : Machine} (h : m.registers.size = 16) {now : Float} {delay : Int}
    (hdelay : m.delay {} now = .ok delay) : ∃ text, m.dump {} now = .ok text := by
  have hrow : ∀ x ∈ [0, 4, 8, 12], ∃ row, m.dumpRow x = .ok row := by
    intro x hx
    simp only [List.mem_cons, List.not_mem_nil, or_false] at hx
    exact exists_dumpRow h (by omega)
  obtain ⟨rows, hrows⟩ := exists_mapM_ok hrow
  rw [dump, hdelay]
  simp only [hrows]
  exact ⟨_, rfl⟩

end Machine

end Chip8
