import Chip8.Proofs.Machine.Restart

/-!
# The size of memory

Steps and resets leave the size of memory alone, and a program that fits ends inside memory. But
nothing makes sure that the font does. If it reaches beyond the end, then memory grows the first
time that a program is loaded, and from then on sprites wrap at another address than everything
else, because they go by the length of memory and not by the configured size.

  * `Config.loadedSize`             : the size of memory once a program was loaded,
  * `Machine.size_load_of_fits`     : a program that fits leaves memory at that size,
  * `Machine.Reachable.memory_size` : every machine has that size or the configured one.
-/

namespace Chip8

/-- How long memory is once a program was loaded: the font is in it, wherever its place is. -/
def Config.loadedSize (cfg : Config) : Int := max cfg.memorySize (cfg.fontStart + 80)

namespace Machine

variable {cfg : Config} {m : Machine}

/-- Memory has the configured size, or the font has made it longer. -/
def Sized (cfg : Config) (m : Machine) : Prop :=
  m.memory.size = cfg.memorySize ∨ m.memory.size = cfg.loadedSize

/-- A program that fits leaves memory with room for the font. -/
theorem size_load_of_fits (hfont : 0 ≤ cfg.fontStart) (hinside : cfg.fontStart ≤ cfg.memorySize)
    (hprogram : 0 ≤ cfg.programStart) (hm : m.Sized cfg) {image : Array Byte}
    (hfits : image.size ≤ cfg.memorySize - cfg.programStart) :
    (m.load cfg image).machine.memory.size = cfg.loadedSize := by
  obtain ⟨font, hf⟩ := Int.eq_ofNat_of_zero_le hfont
  obtain ⟨program, hp⟩ := Int.eq_ofNat_of_zero_le hprogram
  have hroom : ¬ cfg.programLimit < image.size := by
    rw [Config.programLimit]
    omega
  rw [Sized, Config.loadedSize] at hm
  have hsize : (cfg.withProgram image m.memory).size = max m.memory.size (font + 80) :=
    Config.size_withProgram hf hp (by omega) (by omega)
  rw [load_machine, if_neg hroom, hsize, Config.loadedSize]
  omega

/-- Whatever is loaded, executed and reset, memory has one of two sizes. -/
theorem Reachable.memory_size {admits : Machine → Input → Prop} (hfont : 0 ≤ cfg.fontStart)
    (hinside : cfg.fontStart ≤ cfg.memorySize) (hprogram : 0 ≤ cfg.programStart)
    (h : Reachable cfg admits m) : m.Sized cfg := by
  induction h with
  | create now hcreate =>
      rw [eq_initial_of_create hcreate]
      have hsize : (initial cfg now).memory.size = cfg.memorySize.toNat := Array.size_replicate
      exact Or.inl (by omega)
  | @load m image _ ih =>
      by_cases hfits : image.size ≤ cfg.memorySize - cfg.programStart
      · exact Or.inr (size_load_of_fits hfont hinside hprogram ih hfits)
      · rw [load_of_large cfg image m (by rw [Config.programLimit]; omega)]
        exact ih
  | @step m input _ _ ih =>
      rw [Sized, (memory_size_stable m.memory.size).step cfg input rfl]
      exact ih
  | reset now _ ih =>
      rw [Sized, memory_reset]
      exact ih

/-- **Memory keeps its size as long as the font fits.** A reachable machine has the configured
    memory or the memory that the font needs. Steps and resets leave its size as it is, and every
    program that fits leaves room for the font. So where the font is inside memory the size never
    changes, and a sprite wraps at the same address as every other access. -/
theorem reachable_memory_size {admits : Machine → Input → Prop} (hfont : 0 ≤ cfg.fontStart)
    (hinside : cfg.fontStart ≤ cfg.memorySize) (hprogram : 0 ≤ cfg.programStart)
    (h : Reachable cfg admits m) :
    (m.memory.size = cfg.memorySize ∨ m.memory.size = cfg.loadedSize) ∧
      (∀ input, (m.step cfg input).machine.memory.size = m.memory.size) ∧
      (∀ now, (m.reset cfg now).memory.size = m.memory.size) ∧
      (∀ image : Array Byte, image.size ≤ cfg.memorySize - cfg.programStart →
        (m.load cfg image).machine.memory.size = cfg.loadedSize) ∧
      (cfg.fontStart + 80 ≤ cfg.memorySize → m.memory.size = cfg.memorySize ∧
        ∀ a, Fault.modulo a m.memory.size = Fault.modulo a cfg.memorySize) := by
  have hm : m.Sized cfg := h.memory_size hfont hinside hprogram
  refine ⟨hm, fun input => (memory_size_stable m.memory.size).step cfg input rfl,
    fun now => congrArg Array.size (memory_reset cfg now m),
    fun image hfits => size_load_of_fits hfont hinside hprogram hm hfits, fun hroom => ?_⟩
  have hsize : (m.memory.size : Int) = cfg.memorySize := by
    rw [Sized, Config.loadedSize] at hm
    omega
  refine ⟨hsize, fun a => ?_⟩
  rw [hsize]

/-- A font in the last eighty bytes leaves memory at a hundred bytes, after a step as well. -/
theorem reachable_memory_size_font_at_end :
    let cfg : Config := { memorySize := 100, programStart := 90, fontStart := 20 }
    let loaded := ((initial cfg 0.0).load cfg #[0x60, 0x05]).machine
    let stepped := (loaded.step cfg ⟨fun _ => false, 0.0, 0⟩).machine
    (stepped.memory.size : Int) = cfg.memorySize ∧
      Fault.modulo 150 stepped.memory.size = .ok 50 := by
  intro cfg loaded stepped
  have hcreate : create cfg 0.0 = .ok (initial cfg 0.0) := rfl
  have hloaded : Reachable cfg (fun _ _ => True) loaded := (Reachable.create 0.0 hcreate).load _
  have hstepped : Reachable cfg (fun _ _ => True) stepped := hloaded.step _ trivial
  obtain ⟨-, -, -, -, hfits⟩ := reachable_memory_size (by decide) (by decide) (by decide) hstepped
  obtain ⟨hsize, hwrap⟩ := hfits (by decide)
  exact ⟨hsize, (hwrap 150).trans rfl⟩

/-- With the font at the last address of the usual memory, loading nothing at all makes memory 79
    bytes longer. A sprite at address 4096 is then read from behind the end, and a fetch from that
    address still goes to the first cell. -/
theorem memory_grows :
    let cfg : Config := { fontStart := 4095 }
    1 ≤ cfg.memorySize ∧ (0 ≤ cfg.fontStart ∧ cfg.fontStart < cfg.memorySize) ∧
      (0 ≤ cfg.programStart ∧ cfg.programStart ≤ cfg.memorySize) ∧
      ∃ m, Reachable cfg (fun _ _ => True) m ∧ m.memory.size = 4175 ∧
        m.memory.size ≠ cfg.memorySize ∧ Fault.modulo 4096 m.memory.size = .ok 4096 ∧
        Fault.modulo 4096 cfg.memorySize = .ok 0 := by
  intro cfg
  have hcreate : create cfg 0.0 = .ok (initial cfg 0.0) := rfl
  have hinitial : Reachable cfg (fun _ _ => True) (initial cfg 0.0) := .create 0.0 hcreate
  have hsized := hinitial.memory_size (by decide) (by decide) (by decide)
  have hsize : (((initial cfg 0.0).load cfg #[]).machine.memory.size : Int) = 4175 :=
    size_load_of_fits (by decide) (by decide) (by decide) hsized (by decide)
  refine ⟨by decide, by decide, by decide, _, hinitial.load #[], by omega, ?_, ?_, rfl⟩
  · rw [hsize]
    decide
  · rw [hsize]
    rfl

end Machine

end Chip8
