import Chip8.Proofs.Machine.Loading
import Chip8.Proofs.Machine.Valid

/-!
# Reachable machines

A machine is created, and from then on programs are loaded, steps are done and the machine is
reset, in any order. The keys, the clock and the random numbers belong to the host: each step has
its own `Input`, and `admits` says which inputs the host may offer to which machine.

With the usual configuration every reachable machine is valid (`Reachable.valid`), and every step
of it answers or traps (`Reachable.step_total`), whatever the programs and the host do, as long
as the clock does not go back behind the delay timer.
-/

namespace Chip8.Machine

/-- The machines that can come about with a host that offers nothing but what `admits` allows.
    Loading and stepping count whether they succeed or fail. -/
inductive Reachable (cfg : Config) (admits : Machine → Input → Prop) : Machine → Prop where
  | create {m : Machine} (now : Float) : create cfg now = .ok m → Reachable cfg admits m
  | load {m : Machine} (image : Array Byte) :
      Reachable cfg admits m → Reachable cfg admits (m.load cfg image).machine
  | step {m : Machine} (input : Input) :
      Reachable cfg admits m → admits m input → Reachable cfg admits (m.step cfg input).machine
  | reset {m : Machine} (now : Float) :
      Reachable cfg admits m → Reachable cfg admits (m.reset cfg now)

/-- A machine that was created is the initial one, because there was room for it. -/
theorem eq_initial_of_create {cfg : Config} {now : Float} {m : Machine}
    (h : create cfg now = .ok m) : m = initial cfg now := by
  cases hroom : room cfg with
  | error f =>
      rw [create, hroom] at h
      cases h
  | ok _ =>
      rw [create, hroom] at h
      cases h
      rfl

/-- There is room for the usual machine. -/
theorem create_usual (now : Float) : create {} now = .ok (initial {} now) := rfl

/-- A machine with a program loaded into it is reachable. -/
theorem reachable_loaded (admits : Machine → Input → Prop) (now : Float) (image : Array Byte) :
    Reachable {} admits ((initial {} now).load {} image).machine :=
  (Reachable.create now (create_usual now)).load image

/-- An address below the size of memory is the number of its cell. -/
theorem byteAt?_of_lt {m : Machine} {a : Nat} (h : a < 4096) :
    m.byteAt? {} a = m.memory[a]? := by
  have hplace : Fault.modulo a ({} : Config).memorySize = .ok (a : Int) := by
    rw [Fault.modulo_of_pos _ (by decide)]
    exact congrArg Except.ok (Int.emod_eq_of_lt (Int.natCast_nonneg a) (Int.ofNat_lt.2 h))
  rw [byteAt?, hplace]
  exact Cells.get?_natCast m.memory a

/-- A program that is not too large ends inside memory. -/
theorem program_fits {image : Array Byte} {n : Nat} (h : ¬ ({} : Config).programLimit < image.size)
    (hn : n = 4096) : 0x200 + image.size ≤ n := by
  replace h : ¬ (4096 - 0x200 : Int) < image.size := h
  omega

/-- Loading leaves memory at its size. -/
theorem size_load {m : Machine} (h : m.memory.size = 4096) (image : Array Byte) :
    (m.load {} image).machine.memory.size = 4096 := by
  rw [load_machine]
  split
  · exact h
  · rename_i hlarge
    have hsize : (({} : Config).withProgram image m.memory).size = max m.memory.size (0 + 80) :=
      Config.size_withProgram rfl rfl (Nat.zero_le _) (program_fits hlarge h)
    dsimp only
    rw [hsize, h]
    rfl

namespace Valid

/-- A machine at the start of its program is valid, with any memory of the usual size. -/
theorem fresh {memory : Array Byte} {screen : Screen} (now : Float) (hm : memory.size = 4096)
    (hs : screen.Sound) : (fresh {} now memory screen).Valid where
  memory := hm
  registers := Array.size_replicate
  values := fun v hv => by
    rw [Array.eq_of_mem_replicate hv]
    decide
  index := ⟨Int.le_refl 0, by
    show (0 : Int) < 4096
    decide⟩
  counter := by
    show (0 : Int) ≤ 0x200 ∧ (0x200 : Int) < 4096
    decide
  depth := Nat.zero_le _
  stack := Array.size_replicate
  returns := fun a ha => by
    rw [Array.eq_of_mem_replicate ha]
    decide
  screen := hs

theorem initial (now : Float) : (initial {} now).Valid :=
  fresh now Array.size_replicate Screen.blank_sound

/-- A reset keeps the memory of a valid machine, and makes everything else valid. -/
theorem reset {m : Machine} (h : m.Valid) (now : Float) : (m.reset {} now).Valid :=
  fresh now h.memory (h.screen.clear.setExtended false)

/-- A program that fits leaves a valid machine valid, and one that does not changes nothing. -/
theorem load {m : Machine} (h : m.Valid) (image : Array Byte) :
    (m.load {} image).machine.Valid := by
  have hsize := size_load h.memory image
  rw [load_machine] at hsize ⊢
  split
  · exact h
  · rename_i hfits
    rw [if_neg hfits] at hsize
    exact h.setMemory hsize

/-- A program that fits is in memory from its start on. -/
theorem byteAt_load {m : Machine} (h : m.Valid) {image : Array Byte} (hfits : image.size ≤ 3584)
    {k : Nat} (hk : k < image.size) :
    (m.load {} image).machine.byteAt? {} (0x200 + k : Nat) = some image[k] := by
  have hroom : ¬ ({} : Config).programLimit < image.size := by
    show ¬ (4096 - 0x200 : Int) < image.size
    omega
  have hmemory : (({} : Config).withProgram image m.memory)[0x200 + k]? = image[k]? := by
    have hfont : ({} : Config).fontStart = (0 : Nat) := rfl
    have hstart : ({} : Config).programStart = (0x200 : Nat) := rfl
    have hglyphs : 0 + 80 ≤ m.memory.size := by
      rw [h.memory]
      decide
    rw [Config.getElem?_withProgram hfont hstart hglyphs (program_fits hroom h.memory),
      if_pos (by omega), Nat.add_sub_cancel_left]
  rw [byteAt?_of_lt (by omega), load_machine, if_neg hroom, ← Array.getElem?_eq_getElem hk]
  exact hmemory

/-- A pair inside a program that fits is what is fetched at its place. -/
theorem fetched_load {m : Machine} (h : m.Valid) {image : Array Byte} (hfits : image.size ≤ 3584)
    {k : Nat} (hk : k + 1 < image.size) (hcounter : m.counter = (0x200 + k : Nat)) :
    (m.load {} image).machine.fetched? {} = some ⟨m.counter, image[k], image[k + 1]⟩ := by
  have hsame : (m.load {} image).machine.counter = m.counter :=
    load_sameBut {} image m .counter (by decide)
  have hnext : m.counter + 1 = (0x200 + (k + 1) : Nat) := by omega
  have hopcode := h.byteAt_load hfits (show k < image.size by omega)
  have hargument := h.byteAt_load hfits hk
  rw [← hcounter] at hopcode
  rw [← hnext] at hargument
  rw [fetched?, hsame, hopcode, hargument]
  rfl

end Valid

/-- The first instruction of a program that fits is what a new machine carries out next. -/
theorem next_loaded (now : Float) {image : Array Byte} {opcode argument : Byte}
    (hfits : image.size ≤ 3584) (hopcode : image[0]? = some opcode)
    (hargument : image[1]? = some argument) :
    ((initial {} now).load {} image).machine.next? {} = Instruction.decode opcode argument := by
  obtain ⟨_, rfl⟩ := Array.getElem?_eq_some_iff.1 hopcode
  obtain ⟨hpair, rfl⟩ := Array.getElem?_eq_some_iff.1 hargument
  have hrunning := load_sameBut {} image (initial {} now) .halted (by decide)
  exact next?_of_fetched {} hrunning ((Valid.initial now).fetched_load hfits (k := 0) hpair rfl)

/-- A host that offers less reaches no more. -/
theorem Reachable.mono {cfg : Config} {admits admits' : Machine → Input → Prop} {m : Machine}
    (h : Reachable cfg admits m) (hadmits : ∀ m input, admits m input → admits' m input) :
    Reachable cfg admits' m := by
  induction h with
  | create now hcreate => exact .create now hcreate
  | load image _ ih => exact ih.load image
  | step input _ hinput ih => exact ih.step input (hadmits _ input hinput)
  | reset now _ ih => exact ih.reset now

/-- Every reachable machine is valid, if the delay timer shows a byte whenever it is read. -/
theorem Reachable.valid_of_showsByte {m : Machine} (h : Reachable {} (ShowsByte {}) m) :
    m.Valid := by
  induction h with
  | create now hcreate =>
      rw [eq_initial_of_create hcreate]
      exact Valid.initial now
  | load image _ ih => exact ih.load image
  | step input _ hshows ih => exact (ih.step_of_showsByte hshows).1
  | reset now _ ih => exact ih.reset now

/-- Whatever is reached on a clock that does not go back is valid. -/
theorem Reachable.valid {m : Machine} (h : Reachable {} (OnTime {}) m) : m.Valid :=
  (h.mono fun _ _ hclock => hclock.showsByte).valid_of_showsByte

/-- Whatever is loaded, executed and reset, in any order and on any host whose clock does not go
    back behind the delay timer, a machine of the usual configuration keeps its shape and its
    values in range. -/
theorem reachable_in_range {m : Machine} (h : Reachable {} (OnTime {}) m) :
    (m.memory.size = 4096 ∧ ∀ b ∈ m.memory, 0 ≤ b.toNat ∧ b.toNat ≤ 255) ∧
      (m.registers.size = 16 ∧ ∀ v ∈ m.registers, 0 ≤ v ∧ v ≤ 255) ∧
      (0 ≤ m.index ∧ m.index < 4096) ∧
      (0 ≤ m.counter ∧ m.counter < 4096) ∧
      (m.depth ≤ 16 ∧ m.stack.size = 16 ∧ ∀ a ∈ m.stack, 0 ≤ a ∧ a ≤ 4095) ∧
      (0 ≤ m.timer.value.toNat ∧ m.timer.value.toNat ≤ 255) ∧
      (m.screen.cells.size = 128 * 64 ∧ ∀ c ∈ m.screen.cells,
        c = ({} : Display).foreground ∨ c = ({} : Display).background) := by
  have hm := h.valid
  refine ⟨⟨hm.memory, fun b hb => ?_⟩, ⟨hm.registers, hm.values⟩, hm.index, hm.counter,
    ⟨hm.depth, hm.stack, hm.returns⟩, ?_, ⟨hm.screen.size, hm.screen.colours⟩⟩
  · have hfits := hm.bytes b hb
    omega
  · have hfits := hm.timer
    omega

/-- The program `F007` reads the delay timer half a second after the start. -/
theorem reachable_in_range_timer_read :
    let loaded := ((initial {} 0.0).load {} #[0xF0, 0x07]).machine
    let read := (loaded.step {} ⟨fun _ => false, 0.5, 0⟩).machine
    Reachable {} (OnTime {}) read ∧ read.memory.size = 4096 ∧
      ∀ v ∈ read.registers, 0 ≤ v ∧ v ≤ 255 := by
  have hloaded := reachable_loaded (OnTime {}) 0.0 #[0xF0, 0x07]
  have hread := hloaded.step ⟨fun _ => false, 0.5, 0⟩ fun _ _ => ⟨30, rfl⟩
  obtain ⟨⟨hmemory, _⟩, ⟨_, hvalues⟩, _⟩ := reachable_in_range hread
  exact ⟨hread, hmemory, hvalues⟩

/-- Every step of a reachable machine of the usual configuration answers or traps. None fails
    because a cell, register or pixel is out of range, because a value that is stored is no byte
    or because of a division by zero. -/
theorem reachable_step_total {m : Machine} {input : Input} (h : Reachable {} (OnTime {}) m)
    (hclock : OnTime {} m input) :
    (∃ done, (m.step {} input).result = .ok done) ∨
      ∃ t, (m.step {} input).result = .error (.trap t) :=
  (h.valid.step hclock).2

/-- The same program again, after a reset. -/
theorem reachable_step_total_timer_read :
    let loaded := ((initial {} 0.0).load {} #[0xF0, 0x07]).machine
    let out := (loaded.reset {} 1.0).step {} ⟨fun _ => false, 1.5, 0⟩
    (∃ done, out.result = .ok done) ∨ ∃ t, out.result = .error (.trap t) := by
  have hloaded := reachable_loaded (OnTime {}) 0.0 #[0xF0, 0x07]
  exact reachable_step_total (hloaded.reset 1.0) fun _ _ => ⟨30, rfl⟩

end Chip8.Machine
