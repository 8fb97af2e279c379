import Mathlib.Tactic.SplitIfs
import Chip8.Machine.Load
import Chip8.Proofs.Machine.Frame

/-!
# What loading does

Loading puts the font into memory and then the program over it. It looks whether the program fits
before it writes anything, so a program that is too large changes nothing
(`Machine.load_all_or_nothing`). If the font has its place inside memory as well, then loading is
exact: `Config.Loaded` says what every cell of memory holds afterwards.

  * `Config.size_withProgram`     : memory grows only if the font reaches beyond its end,
  * `Config.getElem?_withProgram` : the cells of memory with the font and a program in it,
  * `Machine.load_machine`        : the machine that is left by loading,
  * `Config.Loaded`               : the program, the font around it, and nothing else.
-/

namespace Chip8

/-- Overwriting a row from inside it makes room for the new cells, if there is none. -/
theorem Cells.size_overwrite_of_le {α : Type} {cells new : Array α} {start : Nat}
    (h : start ≤ cells.size) :
    (overwrite cells start new).size = max cells.size (start + new.size) := by
  have hstop : bound cells.size (start + new.size : Int) = min (start + new.size) cells.size := by
    have hpos : ¬ (start : Int) + new.size < 0 := by omega
    rw [bound, if_neg hpos]
    rfl
  rw [overwrite, size_splice, bound_natCast h, hstop]
  omega

namespace Config

/-! ## Memory -/

section Memory

variable {cfg : Config} {image memory : Array Byte} {font program : Nat}

/-- Memory keeps its size, unless the font reaches beyond its end. -/
theorem size_withProgram (hf : cfg.fontStart = font) (hp : cfg.programStart = program)
    (hfont : font ≤ memory.size) (himage : program + image.size ≤ memory.size) :
    (cfg.withProgram image memory).size = max memory.size (font + 80) := by
  have hsize : (Cells.overwrite memory font Font.image).size = max memory.size (font + 80) := by
    rw [Cells.size_overwrite_of_le hfont, Font.size_image]
  rw [withProgram, hf, hp, Cells.size_overwrite (by omega), hsize]

/-- In memory there is the program, then the font where the program is not, and then what there
    was before. -/
theorem getElem?_withProgram (hf : cfg.fontStart = font) (hp : cfg.programStart = program)
    (hfont : font + 80 ≤ memory.size) (himage : program + image.size ≤ memory.size) (a : Nat) :
    (cfg.withProgram image memory)[a]? =
      if program ≤ a ∧ a < program + image.size then image[a - program]?
      else if font ≤ a ∧ a < font + 80 then Font.image[a - font]?
      else memory[a]? := by
  have hroom : font + Font.image.size ≤ memory.size := hfont
  have hsize : (Cells.overwrite memory font Font.image).size = memory.size :=
    Cells.size_overwrite hroom
  rw [withProgram, hf, hp, Cells.getElem?_overwrite (by omega), Cells.getElem?_overwrite hroom,
    Font.size_image]

/-- A program that is in memory already is there after it was put there again. -/
theorem withProgram_withProgram (hf : cfg.fontStart = font) (hp : cfg.programStart = program)
    (hfont : font + 80 ≤ memory.size) (himage : program + image.size ≤ memory.size) :
    cfg.withProgram image (cfg.withProgram image memory) = cfg.withProgram image memory := by
  have hsize : (cfg.withProgram image memory).size = memory.size := by
    rw [size_withProgram hf hp (by omega) himage]
    omega
  refine Array.ext_getElem? fun a => ?_
  rw [getElem?_withProgram hf hp (by omega) (by omega), getElem?_withProgram hf hp hfont himage]
  split_ifs <;> rfl

end Memory

/-- The addresses of a program image. -/
def InProgram (cfg : Config) (image : Array Byte) (a : Int) : Prop :=
  cfg.programStart ≤ a ∧ a < cfg.programStart + image.size

/-- The addresses of the font. -/
def InFont (cfg : Config) (a : Int) : Prop :=
  cfg.fontStart ≤ a ∧ a < cfg.fontStart + Font.image.size

instance (cfg : Config) (image : Array Byte) (a : Int) : Decidable (cfg.InProgram image a) :=
  inferInstanceAs (Decidable (_ ∧ _))

/-- Memory before and after a program was loaded: the program is at its place, the font is at its
    place except where the program covers it, and all other cells are as they were. -/
structure Loaded (cfg : Config) (image before after : Array Byte) : Prop where
  size : after.size = before.size
  program : ∀ j (hj : j < image.size), Cells.get? after (cfg.programStart + j) = some image[j]
  font : ∀ j (hj : j < Font.image.size), ¬ cfg.InProgram image (cfg.fontStart + j) →
    Cells.get? after (cfg.fontStart + j) = some Font.image[j]
  rest : ∀ a : Nat, ¬ cfg.InProgram image a → ¬ cfg.InFont a → after[a]? = before[a]?

/-- Memory with the font and then the program written into it is loaded memory, if there is room for
    both. -/
theorem loaded_withProgram {cfg : Config} {image memory : Array Byte} {font program : Nat}
    (hf : cfg.fontStart = font) (hp : cfg.programStart = program)
    (hfont : font + 80 ≤ memory.size) (himage : program + image.size ≤ memory.size) :
    cfg.Loaded image memory (cfg.withProgram image memory) where
  size := by
    rw [size_withProgram hf hp (by omega) himage]
    omega
  program := fun j hj => by
    have hplace : cfg.programStart + j = (program + j : Nat) := by omega
    rw [hplace, Cells.get?_natCast, getElem?_withProgram hf hp hfont himage,
      if_pos (by omega), Nat.add_sub_cancel_left, Array.getElem?_eq_getElem hj]
  font := fun j hj hfree => by
    have hplace : cfg.fontStart + j = (font + j : Nat) := by omega
    rw [hplace, InProgram] at hfree
    rw [Font.size_image] at hj
    rw [hplace, Cells.get?_natCast, getElem?_withProgram hf hp hfont himage,
      if_neg (by omega), if_pos (by omega), Nat.add_sub_cancel_left, Array.getElem?_eq_getElem]
  rest := fun a hprogram hglyphs => by
    rw [InProgram] at hprogram
    rw [InFont, Font.size_image] at hglyphs
    rw [getElem?_withProgram hf hp hfont himage, if_neg (by omega), if_neg (by omega)]

end Config

namespace Machine

variable (cfg : Config) (image : Array Byte) (m : Machine)

/-! ## Machines -/

/-- A program that is too large is refused, and the machine stays as it is. -/
theorem load_of_large (h : cfg.programLimit < image.size) :
    m.load cfg image = ⟨.error (.programTooLarge image.size cfg.programLimit), m, #[]⟩ := by
  rw [load, Effect.load, if_pos h]
  rfl

/-- Any other program gets into memory, and nothing else changes. -/
theorem load_of_fits (h : ¬ cfg.programLimit < image.size) :
    m.load cfg image = ⟨.ok (), { m with memory := cfg.withProgram image m.memory },
      #[.logged (.loaded image.size cfg.programStart)]⟩ := by
  rw [load, Effect.load, if_neg h]
  rfl

/-- Loading puts the font and the program into memory, if there is room, and nothing else. -/
theorem load_machine :
    (m.load cfg image).machine =
      if cfg.programLimit < image.size then m
      else { m with memory := cfg.withProgram image m.memory } := by
  split
  · rw [load_of_large cfg image m ‹_›]
  · rw [load_of_fits cfg image m ‹_›]

/-- Loading changes memory at most. -/
theorem load_sameBut : m.SameBut [.memory] (m.load cfg image).machine := by
  intro part hpart
  rw [load_machine]
  split
  · exact SameBut.refl [.memory] m part hpart
  · cases part <;> first | rfl | exact absurd List.mem_cons_self hpart

variable {cfg m}

/-- **Loading is all or nothing.** A program that is too large is refused, and nothing has changed.
    Any other program is in memory afterwards, over the font, and everything else is as it was.
    Loading it again changes nothing. -/
theorem load_all_or_nothing (hprogram : 0 ≤ cfg.programStart) (hfont : 0 ≤ cfg.fontStart)
    (hroom : cfg.fontStart + 80 ≤ cfg.memorySize) (hmemory : m.memory.size = cfg.memorySize) :
    (cfg.memorySize - cfg.programStart < image.size →
        m.load cfg image
          = ⟨.error (.programTooLarge image.size (cfg.memorySize - cfg.programStart)), m, #[]⟩) ∧
      (image.size ≤ cfg.memorySize - cfg.programStart →
        ∃ memory, cfg.Loaded image m.memory memory ∧
          m.load cfg image = ⟨.ok (), { m with memory := memory },
            #[.logged (.loaded image.size cfg.programStart)]⟩ ∧
          Machine.load cfg image { m with memory := memory } = ⟨.ok (), { m with memory := memory },
            #[.logged (.loaded image.size cfg.programStart)]⟩) := by
  refine ⟨load_of_large cfg image m, fun hfits => ?_⟩
  obtain ⟨program, hp⟩ := Int.eq_ofNat_of_zero_le hprogram
  obtain ⟨font, hf⟩ := Int.eq_ofNat_of_zero_le hfont
  have hglyphs : font + 80 ≤ m.memory.size := by omega
  have himage : program + image.size ≤ m.memory.size := by omega
  have hlimit : ¬ cfg.programLimit < image.size := by
    rw [Config.programLimit]
    omega
  refine ⟨cfg.withProgram image m.memory, Config.loaded_withProgram hf hp hglyphs himage,
    load_of_fits cfg image m hlimit, ?_⟩
  rw [load_of_fits cfg image _ hlimit]
  dsimp only
  rw [Config.withProgram_withProgram hf hp hglyphs himage]

/-- A memory of a hundred bytes with the font in its last eighty takes a program in its last ten,
    over the two last glyphs, and refuses a program of eleven bytes. -/
theorem load_all_or_nothing_overlap :
    let cfg : Config := { memorySize := 100, programStart := 90, fontStart := 20 }
    let m := initial cfg 0.0
    let image := Array.replicate 10 (0xAB : Byte)
    (m.load cfg (image.push 0xAB)).machine = m ∧
      ∃ memory, cfg.Loaded image m.memory memory ∧
        (m.load cfg image).machine = { m with memory := memory } ∧
        Cells.get? memory 99 = some 0xAB ∧ Cells.get? memory 89 = some 0xE0 := by
  intro cfg m image
  have hmemory : (m.memory.size : Int) = cfg.memorySize := by
    rw [show m.memory.size = 100 from Array.size_replicate]
    rfl
  have hexact := fun image => @load_all_or_nothing cfg image m (by decide) (by decide) (by decide)
    hmemory
  obtain ⟨memory, hloaded, hload, -⟩ := (hexact image).2 (by decide)
  refine ⟨?_, memory, hloaded, ?_, hloaded.program 9 (by decide),
    hloaded.font 69 (by decide) (by decide)⟩
  · rw [(hexact (image.push 0xAB)).1 (by decide)]
  · rw [hload]

end Machine

end Chip8
