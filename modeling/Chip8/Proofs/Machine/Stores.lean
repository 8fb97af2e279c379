import Chip8.Proofs.Machine.Stable
import Chip8.Proofs.Machine.Valid

/-!
# Where programs write

Two instructions write to memory: one stores the digits of a register and one stores registers, both
from the index register on. `Instruction.WritesTo` says to which cells, also where the instruction
fails on the way. With memory of the usual size a step changes no other cell
(`Machine.step_memory`), for any machine and any host.

A value that is no byte is where these instructions can fail. Of the digits only the hundreds can be
too large, so the instruction that stores them writes all three or nothing. The registers before one
that is no byte are written.
-/

namespace Chip8

/-- Whether an instruction writes to a cell of memory. -/
def Instruction.WritesTo (m : Machine) (cell : Nat) : Instruction → Prop
  | .storeDigits x => ∃ v, m.registers[x.val]? = some v ∧ Byte.Fits (v / 100) ∧
      ∃ k : Nat, k < 3 ∧ (cell : Int) = (m.index + k) % 4096
  | .storeRegisters x => ∃ k : Nat, k ≤ x.val ∧
      (∀ j ≤ k, ∃ v, m.registers[j]? = some v ∧ Byte.Fits v) ∧
      (cell : Int) = (m.index + k) % 4096
  | _ => False

namespace Effect

variable {α : Type}

/-- The machine that an effect leaves. -/
def left : EStateM.Result Fault Progress α → Machine
  | .ok _ p => p.machine
  | .error _ p => p.machine

/-- An invariant that an effect keeps holds of the machine that it leaves. -/
theorem left_of_keeps {inv : Machine → Prop} {eff : Effect α} {p : Progress} (h : Keeps inv eff)
    (hp : inv p.machine) : inv (left (eff.run p)) := by
  have hrun := h p hp
  cases hr : eff.run p with
  | ok a p' =>
      rw [hr] at hrun
      exact hrun.2
  | error f p' =>
      rw [hr] at hrun
      exact hrun.2

/-- Registers are stored from the first one on, in a row. -/
theorem storeRegisters_eq (cfg : Config) (x : Nibble) :
    storeRegisters cfg x = (List.range' 0 (x + 1)).forM (storeRegister cfg) := by
  rw [storeRegisters, List.range_eq_range']

/-- That an instruction is done changes nothing on the machine. -/
theorem left_finish (eff : Effect Unit) (p : Progress) :
    left ((finish eff).run p) = left (eff.run p) := by
  rw [finish_run]
  cases eff.run p <;> rfl

/-- The count of a step is no part of memory. -/
theorem settle_memory (r : EStateM.Result Fault Progress Bool) :
    (settle r).machine.memory = (left r).memory := by
  cases r with
  | ok done p => cases done <;> rfl
  | error f p => rfl

section Stores

variable {cfg : Config} {size : Nat} (hcfg : cfg.memorySize = size) (hpos : 0 < size)

include hcfg hpos

/-- A byte is stored in the cell of its address, if memory has that cell. A store of any other value
    and to any other place fails and changes nothing. -/
theorem store_run (address value : Int) (p : Progress) :
    (∃ b : Byte, value = b.toNat ∧ (address % size).toNat < p.machine.memory.size ∧
      (store cfg address value).run p = .ok () ⟨{ p.machine with
        memory := p.machine.memory.setIfInBounds (address % size).toNat b }, p.events⟩) ∨
    ((∀ b : Byte, value = b.toNat → p.machine.memory.size ≤ (address % size).toNat) ∧
      ∃ f, (store cfg address value).run p = .error f p) := by
  obtain ⟨n, -, hmod, hplace⟩ := Fault.exists_modulo address hpos
  rw [← hcfg] at hplace
  simp only [store, hplace, EStateM.run_bind, run_ofExcept_ok, run_machine, hmod, Int.toNat_natCast]
  by_cases hbyte : ∃ b : Byte, value = b.toNat
  · obtain ⟨b, rfl⟩ := hbyte
    rw [Byte.ofInt?_toNat]
    by_cases hlt : n < p.machine.memory.size
    · rw [Cells.position?_natCast hlt]
      exact Or.inl ⟨b, rfl, hlt, rfl⟩
    · rw [Cells.position?_of_le (Nat.le_of_not_lt hlt)]
      exact Or.inr ⟨fun _ _ => Nat.le_of_not_lt hlt, .outOfRange, rfl⟩
  · rw [Byte.ofInt?_of_ne (not_exists.1 hbyte)]
    exact Or.inr ⟨fun b hb => absurd ⟨b, hb⟩ hbyte, .notAByte, rfl⟩

/-- A byte is stored in a cell that is there. -/
theorem store_run_byte {address : Int} {p : Progress}
    (hplace : (address % size).toNat < p.machine.memory.size) (b : Byte) :
    (store cfg address b.toNat).run p = .ok () ⟨{ p.machine with
      memory := p.machine.memory.setIfInBounds (address % size).toNat b }, p.events⟩ := by
  rcases store_run hcfg hpos address b.toNat p with ⟨b', hb, -, hr⟩ | ⟨hnot, -⟩
  · obtain rfl : b = b' := UInt8.toNat_inj.1 (Int.ofNat.inj hb)
    exact hr
  · exact absurd (hnot b rfl) (Nat.not_le_of_lt hplace)

/-- A value that is no byte is not stored. -/
theorem store_run_not_byte (address : Int) {value : Int} (h : ∀ b : Byte, value ≠ b.toNat)
    (p : Progress) : ∃ f, (store cfg address value).run p = .error f p := by
  rcases store_run hcfg hpos address value p with ⟨b, hb, -⟩ | ⟨-, hr⟩
  · exact absurd hb (h b)
  · exact hr

/-- Without a byte for the hundreds no digit is stored. -/
theorem storeDigits_run_not_byte {x : Nibble} {p : Progress}
    (h : ¬ ∃ v, p.machine.registers[x.val]? = some v ∧ Byte.Fits (v / 100)) :
    ∃ f, (storeDigits cfg x).run p = .error f p := by
  simp only [storeDigits, register, EStateM.run_bind, run_machine]
  cases hv : p.machine.registers[x.val]? with
  | none => exact ⟨.outOfRange, rfl⟩
  | some v =>
      have hnot : ∀ b : Byte, v / 100 ≠ b.toNat := fun b hb => h ⟨v, hv, hb ▸ b.fits_toNat⟩
      obtain ⟨f, hr⟩ := store_run_not_byte hcfg hpos p.machine.index hnot p
      refine ⟨f, ?_⟩
      simp only [EStateM.run_pure, hr]

/-- A store to another address leaves a cell alone. -/
theorem store_spares {address value : Int} {cell : Nat} {content : Option Byte}
    (h : (cell : Int) ≠ address % size) :
    Keeps (fun m => m.memory[cell]? = content) (store cfg address value) := by
  intro p hp
  rcases store_run hcfg hpos address value p with ⟨b, -, -, hr⟩ | ⟨-, f, hr⟩
  · rw [hr]
    refine ⟨trivial, ?_⟩
    show (p.machine.memory.setIfInBounds (address % size).toNat b)[cell]? = content
    have hnonneg := Int.emod_nonneg address (Int.ne_of_gt (Int.natCast_pos.2 hpos))
    rw [Array.getElem?_setIfInBounds_ne (by omega)]
    exact hp
  · rw [hr]
    exact ⟨trivial, hp⟩

/-- A turn of the loop that stores registers is the store of a register that holds a byte, which
    also moves the index register along, or it fails and changes nothing. -/
theorem storeRegister_run (k : Nat) (p : Progress) :
    (∃ b : Byte, p.machine.registers[k]? = some (b.toNat : Int) ∧
      (p.machine.index % size).toNat < p.machine.memory.size ∧
      (storeRegister cfg k).run p = .ok () ⟨{ p.machine with
        memory := p.machine.memory.setIfInBounds (p.machine.index % size).toNat b
        index := Address.wrap (p.machine.index + 1) }, p.events⟩) ∨
    ((∀ b : Byte, p.machine.registers[k]? = some (b.toNat : Int) →
        p.machine.memory.size ≤ (p.machine.index % size).toNat) ∧
      ∃ f, (storeRegister cfg k).run p = .error f p) := by
  simp only [storeRegister, register, EStateM.run_bind, run_machine]
  cases hv : p.machine.registers[k]? with
  | none => exact Or.inr ⟨fun b hb => (nomatch hb), .outOfRange, rfl⟩
  | some v =>
      rcases store_run hcfg hpos p.machine.index v p with ⟨b, rfl, hlt, hr⟩ | ⟨hnot, f, hr⟩
      · refine Or.inl ⟨b, rfl, hlt, ?_⟩
        simp only [EStateM.run_pure, hr]
        rfl
      · refine Or.inr ⟨fun b hb => hnot b (Option.some.inj hb), f, ?_⟩
        simp only [EStateM.run_pure, hr]

end Stores

section Spares

variable {cfg : Config} (hsize : cfg.memorySize = 4096)

include hsize

/-- Storing digits leaves the cells alone that it does not write to. -/
theorem storeDigits_spares (x : Nibble) {cell : Nat} (p : Progress)
    (h : ¬ (Instruction.storeDigits x).WritesTo p.machine cell) :
    (left ((storeDigits cfg x).run p)).memory[cell]? = p.machine.memory[cell]? := by
  by_cases hbyte : ∃ v, p.machine.registers[x.val]? = some v ∧ Byte.Fits (v / 100)
  · obtain ⟨v, hv, hfits⟩ := hbyte
    have hcell : ∀ k : Nat, k < 3 → (cell : Int) ≠ (p.machine.index + k) % 4096 :=
      fun k hk heq => h ⟨v, hv, hfits, k, hk, heq⟩
    have hkeeps : Keeps (fun m => m.memory[cell]? = p.machine.memory[cell]?)
        (store cfg p.machine.index (v / 100) >>= fun _ =>
          store cfg (p.machine.index + 1) (v / 10 % 10) >>= fun _ =>
            store cfg (p.machine.index + 2) (v % 10)) := by
      refine Keeps.bind (store_spares hsize (by decide) ?_) fun _ => ?_
      · simpa using hcell 0 (by decide)
      · exact Keeps.bind (store_spares hsize (by decide) (hcell 1 (by decide))) fun _ =>
          store_spares hsize (by decide) (hcell 2 (by decide))
    simp only [storeDigits, register, EStateM.run_bind, run_machine, hv]
    exact left_of_keeps hkeeps rfl
  · obtain ⟨f, hr⟩ := storeDigits_run_not_byte hsize (by decide) hbyte
    rw [hr]
    rfl

/-- Storing consecutive registers leaves the cells alone that it does not write to. -/
theorem storeRange_spares (n start : Nat) {cell : Nat} (p : Progress)
    (h : ∀ k < n, (∀ j ≤ k, ∃ v, p.machine.registers[start + j]? = some v ∧ Byte.Fits v) →
      (cell : Int) ≠ (p.machine.index + k) % 4096) :
    (left (((List.range' start n).forM (storeRegister cfg)).run p)).memory[cell]?
      = p.machine.memory[cell]? := by
  induction n generalizing start p with
  | zero => rfl
  | succ n ih =>
      have hcons : (List.range' start (n + 1)).forM (storeRegister cfg)
          = storeRegister cfg start >>= fun _ =>
            (List.range' (start + 1) n).forM (storeRegister cfg) := rfl
      rw [hcons, EStateM.run_bind]
      rcases storeRegister_run hsize (by decide) start p with ⟨b, hv, -, hr⟩ | ⟨-, f, hr⟩
      · rw [hr]
        have hfirst : (cell : Int) ≠ p.machine.index % 4096 := by
          have hcell := h 0 (Nat.succ_pos n) fun j hj => by
            rw [Nat.le_zero.1 hj]
            exact ⟨b.toNat, hv, b.fits_toNat⟩
          simpa using hcell
        -- the rest of the loop starts one register and one cell further on
        refine (ih (start + 1) _ fun k hk hbytes => ?_).trans ?_
        · have hcell := h (k + 1) (Nat.succ_lt_succ hk) fun j hj => by
            cases j with
            | zero => exact ⟨b.toNat, hv, b.fits_toNat⟩
            | succ j =>
                have hbyte := hbytes j (Nat.le_of_succ_le_succ hj)
                rwa [Nat.add_assoc, Nat.add_comm 1 j] at hbyte
          show (cell : Int) ≠ ((p.machine.index + 1) % 4096 + k) % 4096
          omega
        · refine Array.getElem?_setIfInBounds_ne ?_
          show (p.machine.index % 4096).toNat ≠ cell
          omega
      · rw [hr]
        rfl

/-- Storing registers leaves the cells alone that it does not write to. -/
theorem storeRegisters_spares (x : Nibble) {cell : Nat} (p : Progress)
    (h : ¬ (Instruction.storeRegisters x).WritesTo p.machine cell) :
    (left ((storeRegisters cfg x).run p)).memory[cell]? = p.machine.memory[cell]? := by
  rw [storeRegisters_eq]
  refine storeRange_spares hsize (x + 1) 0 p fun k hk hbytes heq => h ?_
  refine ⟨k, Nat.lt_succ_iff.1 hk, fun j hj => ?_, heq⟩
  have hbyte := hbytes j hj
  rwa [Nat.zero_add] at hbyte

end Spares

end Effect

/-- A step changes no cell of memory but those that its instruction writes to. -/
theorem Machine.step_memory {cfg : Config} (hsize : cfg.memorySize = 4096) (input : Input)
    {m : Machine} {cell : Nat} (h : ∀ i, m.next? cfg = some i → ¬ i.WritesTo m cell) :
    (m.step cfg input).machine.memory[cell]? = m.memory[cell]? := by
  -- most instructions have no memory in their footprint, and the two that do spare the cell
  by_cases hwrites : ∃ i, m.next? cfg = some i ∧ .memory ∈ i.footprint
  · obtain ⟨i, hnext, hmemory⟩ := hwrites
    obtain ⟨pair, -, hs⟩ := step_of_next cfg input hnext
    have hspared := h i hnext
    rw [hs, Effect.settle_memory]
    cases i with
    | storeDigits x =>
        exact (congrArg (·.memory[cell]?) (Effect.left_finish _ _)).trans
          (Effect.storeDigits_spares hsize x ⟨m.advance, _⟩ hspared)
    | storeRegisters x =>
        exact (congrArg (·.memory[cell]?) (Effect.left_finish _ _)).trans
          (Effect.storeRegisters_spares hsize x ⟨m.advance, _⟩ hspared)
    | _ => simp [Instruction.footprint] at hmemory
  · have hsame : (m.step cfg input).machine.memory = m.memory :=
      step_same cfg input m .memory (by decide) fun i hi hmem => hwrites ⟨i, hi, hmem⟩
    rw [hsame]

end Chip8
