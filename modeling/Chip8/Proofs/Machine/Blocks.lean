import Chip8.Proofs.Machine.Drawing
import Chip8.Proofs.Machine.Pairs
import Chip8.Proofs.Machine.Stores

/-!
# Blocks of registers in memory

Two instructions move registers 0 to X to memory and back, from the index register on. They move the
index register along, and it wraps at the end of the address space, while cells wrap at the size of
memory. As long as a memory of at least sixteen cells divides the address space or covers it, no two
registers meet in a cell (`cellAt_inj`), and each of the instructions undoes the other
(`Machine.blocks_inverse`).

  * `cellAt` : the cell at an offset from an address,
  * `Stored` : values that lie in some cells of a memory, which is otherwise as before,
  * `Filled` : registers that hold what lies in some cells, and are otherwise as before.

What the two loops do is in `Effect.storeLoop_run`, also where a register is no byte, and in
`Effect.loadLoop_run`. That the loops undo each other is a fact about `Stored` and `Filled`.
-/

namespace Chip8

/-- The number of the cell at an offset from an address, where addresses wrap at the end of the
    address space and cells at the size of memory. -/
def cellAt (size : Nat) (address : Int) (k : Nat) : Nat := ((address + k) % 4096 % size).toNat

theorem cellAt_lt {size : Nat} (hsize : 0 < size) (address : Int) (k : Nat) :
    cellAt size address k < size := by
  have hlt := Int.emod_lt_of_pos ((address + k) % 4096) (Int.natCast_pos.2 hsize)
  have hnonneg := Int.emod_nonneg ((address + k) % 4096) (Int.natCast_pos.2 hsize).ne'
  rw [cellAt]
  omega

/-- Where memory divides the address space, the second wrap makes the first one needless. -/
theorem cellAt_of_dvd {size : Nat} (h : size ∣ 4096) (address : Int) (k : Nat) :
    cellAt size address k = ((address + k) % size).toNat := by
  rw [cellAt, Int.emod_emod_of_dvd _ (by exact_mod_cast h)]

/-- Where memory covers the address space, the second wrap does nothing. -/
theorem cellAt_of_le {size : Nat} (h : 4096 ≤ size) (address : Int) (k : Nat) :
    cellAt size address k = ((address + k) % (4096 : Nat)).toNat := by
  have hlt := Int.emod_lt_of_pos (address + k) (by decide : (0 : Int) < 4096)
  have hnonneg := Int.emod_nonneg (address + k) (by decide : (4096 : Int) ≠ 0)
  rw [cellAt, Int.emod_eq_of_lt hnonneg (by omega)]
  rfl

/-- Sixteen cells in a row are different. -/
theorem cellAt_inj {size : Nat} (hsize : 16 ≤ size) (hshape : size ∣ 4096 ∨ 4096 ≤ size)
    {address : Int} {j k : Nat} (hj : j < 16) (hk : k < 16)
    (h : cellAt size address j = cellAt size address k) : j = k := by
  rcases hshape with hdvd | hle
  · rw [cellAt_of_dvd hdvd, cellAt_of_dvd hdvd] at h
    exact wrap_inj (by omega) (by omega) h
  · rw [cellAt_of_le hle, cellAt_of_le hle] at h
    exact wrap_inj (by omega) (by omega) h

/-- Each of the first `n` values lies as a byte in its cell, and the other cells are as before. -/
structure Stored (n : Nat) (values : Nat → Option Int) (cell : Nat → Nat)
    (before after : Array Byte) : Prop where
  size : after.size = before.size
  bytes : ∀ k < n, ∃ b : Byte, values k = some (b.toNat : Int) ∧ after[cell k]? = some b
  others : ∀ c, (∀ k < n, c ≠ cell k) → after[c]? = before[c]?

/-- Each of the first `n` registers holds what lies in its cell, and the other registers are as
    before. -/
structure Filled (n : Nat) (memory : Array Byte) (cell : Nat → Nat)
    (before after : Array Int) : Prop where
  size : after.size = before.size
  bytes : ∀ k < n, ∃ b : Byte, memory[cell k]? = some b ∧ after[k]? = some (b.toNat : Int)
  others : ∀ k, n ≤ k → after[k]? = before[k]?

namespace Stored

variable {n : Nat} {values : Nat → Option Int} {cell : Nat → Nat} {before after : Array Byte}

theorem zero : Stored 0 values cell before before where
  size := rfl
  bytes := fun k hk => absurd hk (Nat.not_lt_zero k)
  others := fun _ _ => rfl

/-- One more value in a cell of its own. -/
theorem succ (h : Stored n values cell before after) {b : Byte}
    (hvalue : values n = some (b.toNat : Int)) (hlt : cell n < before.size)
    (hnew : ∀ k < n, cell n ≠ cell k) :
    Stored (n + 1) values cell before (after.setIfInBounds (cell n) b) where
  size := (Array.size_setIfInBounds ..).trans h.size
  bytes := by
    intro k hk
    rcases Nat.lt_succ_iff_lt_or_eq.1 hk with hk | rfl
    · obtain ⟨b', hvalue', hcell⟩ := h.bytes k hk
      exact ⟨b', hvalue', (Array.getElem?_setIfInBounds_ne (hnew k hk)).trans hcell⟩
    · exact ⟨b, hvalue, Array.getElem?_setIfInBounds_self_of_lt (h.size ▸ hlt)⟩
  others := by
    intro c hc
    rw [Array.getElem?_setIfInBounds_ne (hc n (Nat.lt_succ_self n)).symm]
    exact h.others c fun k hk => hc k (Nat.lt_succ_of_lt hk)

end Stored

namespace Filled

variable {n : Nat} {memory : Array Byte} {cell : Nat → Nat} {before after : Array Int}

theorem zero : Filled 0 memory cell before before where
  size := rfl
  bytes := fun k hk => absurd hk (Nat.not_lt_zero k)
  others := fun _ _ => rfl

/-- One more register that takes the value of its cell. -/
theorem succ (h : Filled n memory cell before after) {b : Byte}
    (hcell : memory[cell n]? = some b) (hlt : n < before.size) :
    Filled (n + 1) memory cell before (after.setIfInBounds n b.toNat) where
  size := (Array.size_setIfInBounds ..).trans h.size
  bytes := by
    intro k hk
    rcases Nat.lt_succ_iff_lt_or_eq.1 hk with hk | rfl
    · obtain ⟨b', hcell', hafter⟩ := h.bytes k hk
      exact ⟨b', hcell', (Array.getElem?_setIfInBounds_ne (by omega)).trans hafter⟩
    · exact ⟨b, hcell, Array.getElem?_setIfInBounds_self_of_lt (h.size ▸ hlt)⟩
  others := by
    intro k hk
    rw [Array.getElem?_setIfInBounds_ne (by omega)]
    exact h.others k (by omega)

/-- A value that was stored is loaded from its cell. -/
theorem getElem?_of_stored {n' : Nat} {values : Nat → Option Int} {earlier : Array Byte}
    (hstored : Stored n' values cell earlier memory) (h : Filled n memory cell before after)
    {k : Nat} (hk : k < n) (hk' : k < n') : after[k]? = values k := by
  obtain ⟨b, hvalue, hcell⟩ := hstored.bytes k hk'
  obtain ⟨b', hcell', hafter⟩ := h.bytes k hk
  cases hcell.symm.trans hcell'
  exact hafter.trans hvalue.symm

/-- Registers that were stored come back, whatever has become of them in the meantime. -/
theorem eq_of_stored {registers : Array Int} {earlier : Array Byte}
    (hstored : Stored n (fun k => registers[k]?) cell earlier memory)
    (h : Filled n memory cell before after)
    (hothers : ∀ k, n ≤ k → before[k]? = registers[k]?) : after = registers := by
  refine Array.ext_getElem? fun k => ?_
  by_cases hk : k < n
  · exact getElem?_of_stored hstored h hk hk
  · exact (h.others k (Nat.le_of_not_lt hk)).trans (hothers k (Nat.le_of_not_lt hk))

/-- Memory whose cells were loaded stays as it is when they are stored again. -/
theorem eq_of_filled {later : Array Byte} (h : Filled n memory cell before after)
    (hstored : Stored n (fun k => after[k]?) cell memory later) : later = memory := by
  refine Array.ext_getElem? fun c => ?_
  by_cases hc : ∃ k < n, c = cell k
  · obtain ⟨k, hk, rfl⟩ := hc
    obtain ⟨b, hcell, hafter⟩ := h.bytes k hk
    obtain ⟨b', hvalue, hlater⟩ := hstored.bytes k hk
    have hsame : (b.toNat : Int) = b'.toNat := Option.some.inj (hafter.symm.trans hvalue)
    obtain rfl : b = b' := UInt8.toNat_inj.1 (Int.ofNat.inj hsame)
    exact hlater.trans hcell.symm
  · exact hstored.others c fun k hk heq => hc ⟨k, hk, heq⟩

end Filled

/-! ## Single bytes -/

/-- The byte at an address is in the cell with the number of the address, wrapped. -/
theorem Machine.byteAt?_eq {cfg : Config} {size : Nat} (hcfg : cfg.memorySize = size)
    (hpos : 0 < size) (m : Machine) (address : Int) :
    m.byteAt? cfg address = m.memory[(address % size).toNat]? := by
  obtain ⟨n, -, hmod, hplace⟩ := Fault.exists_modulo address hpos
  rw [byteAt?, hcfg, hplace, hmod, Int.toNat_natCast]
  exact Cells.get?_natCast m.memory n

namespace Effect

variable {cfg : Config} {size : Nat}

/-- A byte is fetched from the cell of its address. -/
theorem fetch_run (hcfg : cfg.memorySize = size) {p : Progress} (hpos : 0 < size)
    {address : Int} {b : Byte} (h : p.machine.memory[(address % size).toNat]? = some b) :
    (fetch cfg address).run p = .ok b p :=
  fetch_of_byteAt cfg ((Machine.byteAt?_eq hcfg hpos p.machine address).trans h)

/-! ## The two loops -/

/-- A turn of the loop that loads registers, where there is a byte and a register for it. -/
theorem loadRegister_run (hcfg : cfg.memorySize = size) (hpos : 0 < size) {p : Progress} {k : Nat}
    {b : Byte} (hcell : p.machine.memory[(p.machine.index % size).toNat]? = some b)
    (hk : k < p.machine.registers.size) :
    (loadRegister cfg k).run p = .ok () ⟨{ p.machine with
      registers := p.machine.registers.setIfInBounds k b.toNat
      index := Address.wrap (p.machine.index + 1) }, p.events⟩ := by
  simp only [loadRegister, EStateM.run_bind, run_machine, fetch_run hcfg hpos hcell,
    setRegister_run _ hk]
  rfl

/-- A turn of one of the loops moves on by one cell, ... -/
theorem wrap_behind (a : Int) (k : Nat) :
    Address.wrap ((a + k) % 4096 + 1) = (a + (k + 1 : Nat)) % 4096 := by
  rw [Address.wrap]
  omega

/-- ... and no turn leaves the index register where it is. -/
theorem wrap_none {a : Int} (h : 0 ≤ a ∧ a < 4096) : (a + (0 : Nat)) % 4096 = a := by omega

/-- A loop over the numbers below `n + 1` ends with the number `n`. -/
theorem forM_range_succ (body : Nat → Effect Unit) (n : Nat) :
    (List.range (n + 1)).forM body = (List.range n).forM body >>= fun _ => body n := by
  rw [List.range_succ, List.forM_eq_forM, List.forM_append]
  simp only [List.forM_cons, List.forM_nil, bind_pure_unit]

/-- Storing the first registers writes them to their cells, up to the first one that is no byte. -/
theorem storeLoop_run (hcfg : cfg.memorySize = size) (hsize : 16 ≤ size)
    (hshape : size ∣ 4096 ∨ 4096 ≤ size) {p : Progress} (hmemory : p.machine.memory.size = size)
    (hindex : 0 ≤ p.machine.index ∧ p.machine.index < 4096) {n : Nat} (hn : n ≤ 16) :
    ∃ j memory, Stored j (fun k => p.machine.registers[k]?) (cellAt size p.machine.index)
        p.machine.memory memory ∧
      let after : Progress := ⟨{ p.machine with
        memory := memory
        index := (p.machine.index + j) % 4096 }, p.events⟩
      (j = n ∧ ((List.range n).forM (storeRegister cfg)).run p = .ok () after) ∨
        (j < n ∧ (∀ b : Byte, p.machine.registers[j]? ≠ some (b.toNat : Int)) ∧
          ∃ f, ((List.range n).forM (storeRegister cfg)).run p = .error f after) := by
  induction n with
  | zero =>
      refine ⟨0, p.machine.memory, Stored.zero, Or.inl ⟨rfl, ?_⟩⟩
      rw [wrap_none hindex]
      rfl
  | succ n ih =>
      have hpos : 0 < size := by omega
      obtain ⟨j, memory, hstored, ⟨rfl, hrun⟩ | ⟨hj, hnot, f, hrun⟩⟩ := ih (by omega)
      · -- the loop has come to register `j`, which is stored now if it is a byte
        have hlt : cellAt size p.machine.index j < p.machine.memory.size :=
          hmemory.symm ▸ cellAt_lt hpos p.machine.index j
        rcases storeRegister_run hcfg hpos j ⟨{ p.machine with
            memory := memory
            index := (p.machine.index + j) % 4096 }, p.events⟩
          with ⟨b, hvalue, -, hturn⟩ | ⟨hfull, f, hturn⟩
        · have hnew : ∀ k < j, cellAt size p.machine.index j ≠ cellAt size p.machine.index k :=
            fun k hk heq => hk.ne' (cellAt_inj hsize hshape (by omega) (by omega) heq)
          refine ⟨j + 1, _, hstored.succ hvalue hlt hnew, Or.inl ⟨rfl, ?_⟩⟩
          rw [forM_range_succ, run_bind_of_ok hrun, hturn, ← wrap_behind]
          rfl
        · -- there is a cell for it, so it is none
          have hnot : ∀ b : Byte, p.machine.registers[j]? ≠ some (b.toNat : Int) :=
            fun b hb => absurd (hfull b hb) (Nat.not_le_of_lt (hstored.size.symm ▸ hlt))
          refine ⟨j, memory, hstored, Or.inr ⟨Nat.lt_succ_self j, hnot, f, ?_⟩⟩
          rw [forM_range_succ, run_bind_of_ok hrun]
          exact hturn
      · refine ⟨j, memory, hstored, Or.inr ⟨Nat.lt_succ_of_lt hj, hnot, f, ?_⟩⟩
        rw [forM_range_succ, EStateM.run_bind, hrun]

/-- Loading the first registers takes them from their cells. -/
theorem loadLoop_run (hcfg : cfg.memorySize = size) (hpos : 0 < size) {p : Progress}
    (hmemory : p.machine.memory.size = size)
    (hindex : 0 ≤ p.machine.index ∧ p.machine.index < 4096) {n : Nat}
    (hn : n ≤ p.machine.registers.size) :
    ∃ registers, Filled n p.machine.memory (cellAt size p.machine.index)
        p.machine.registers registers ∧
      ((List.range n).forM (loadRegister cfg)).run p = .ok () ⟨{ p.machine with
        registers := registers
        index := (p.machine.index + n) % 4096 }, p.events⟩ := by
  induction n with
  | zero =>
      refine ⟨p.machine.registers, Filled.zero, ?_⟩
      rw [wrap_none hindex]
      rfl
  | succ n ih =>
      obtain ⟨registers, hfilled, hrun⟩ := ih (by omega)
      have hlt : cellAt size p.machine.index n < p.machine.memory.size :=
        hmemory.symm ▸ cellAt_lt hpos p.machine.index n
      have hcell := Array.getElem?_eq_getElem hlt
      refine ⟨_, hfilled.succ hcell hn, ?_⟩
      have hturn := loadRegister_run hcfg hpos (k := n) (p := ⟨{ p.machine with
        registers := registers
        index := (p.machine.index + n) % 4096 }, p.events⟩) hcell (hfilled.size.symm ▸ hn)
      rw [forM_range_succ, run_bind_of_ok hrun, hturn, ← wrap_behind]

end Effect

namespace Machine

variable {cfg : Config} {size : Nat} {m : Machine}

/-! ## The two instructions -/

/-- Storing registers 0 to X writes them to their cells, up to the first one that is no byte. -/
theorem carryOut_storeRegisters (hcfg : cfg.memorySize = size) (hsize : 16 ≤ size)
    (hshape : size ∣ 4096 ∨ 4096 ≤ size) (hmemory : m.memory.size = size)
    (hindex : 0 ≤ m.index ∧ m.index < 4096) (input : Input) (address : Int) (x : Nibble) :
    ∃ j memory, Stored j (fun k => m.registers[k]?) (cellAt size m.index) m.memory memory ∧
      let after : Machine := { m with memory := memory, index := (m.index + j) % 4096 }
      (j = x.val + 1 ∧
        m.carryOut cfg input ⟨address, .ofNibbles 0xF x, 0x55⟩ = ⟨.ok true, after, #[]⟩) ∨
        (j < x.val + 1 ∧ (∀ b : Byte, m.registers[j]? ≠ some (b.toNat : Int)) ∧
          ∃ f, m.carryOut cfg input ⟨address, .ofNibbles 0xF x, 0x55⟩
            = ⟨.error f, after, #[]⟩) := by
  have hdecode := Instruction.decode_misc x 0x55
  obtain ⟨j, memory, hstored, ⟨hj, hrun⟩ | ⟨hj, hnot, f, hrun⟩⟩ :=
    Effect.storeLoop_run hcfg hsize hshape (p := ⟨m, #[]⟩) hmemory hindex (Nat.succ_le_of_lt x.isLt)
  · exact ⟨j, memory, hstored, Or.inl ⟨hj, carryOut_of_finish cfg input hdecode rfl hrun⟩⟩
  · exact ⟨j, memory, hstored, Or.inr ⟨hj, hnot, f, carryOut_of_fault cfg input hdecode rfl hrun⟩⟩

/-- Storing registers that are bytes succeeds. -/
theorem carryOut_storeRegisters_bytes (hcfg : cfg.memorySize = size) (hsize : 16 ≤ size)
    (hshape : size ∣ 4096 ∨ 4096 ≤ size) (hmemory : m.memory.size = size)
    (hindex : 0 ≤ m.index ∧ m.index < 4096) {x : Nibble}
    (hbytes : ∀ k < x.val + 1, ∃ b : Byte, m.registers[k]? = some (b.toNat : Int)) (input : Input)
    (address : Int) :
    ∃ memory, Stored (x.val + 1) (fun k => m.registers[k]?) (cellAt size m.index) m.memory memory ∧
      m.carryOut cfg input ⟨address, .ofNibbles 0xF x, 0x55⟩ = ⟨.ok true, { m with
        memory := memory
        index := (m.index + (x.val + 1 : Nat)) % 4096 }, #[]⟩ := by
  obtain ⟨j, memory, hstored, ⟨rfl, hout⟩ | ⟨hj, hnot, -⟩⟩ :=
    carryOut_storeRegisters hcfg hsize hshape hmemory hindex input address x
  · exact ⟨memory, hstored, hout⟩
  · obtain ⟨b, hb⟩ := hbytes j hj
    exact absurd hb (hnot b)

/-- Loading registers 0 to X takes them from their cells, whatever these hold. -/
theorem carryOut_loadRegisters (hcfg : cfg.memorySize = size) (hpos : 0 < size)
    (hmemory : m.memory.size = size) (hindex : 0 ≤ m.index ∧ m.index < 4096) {x : Nibble}
    (hx : x.val < m.registers.size) (input : Input) (address : Int) :
    ∃ registers, Filled (x.val + 1) m.memory (cellAt size m.index) m.registers registers ∧
      m.carryOut cfg input ⟨address, .ofNibbles 0xF x, 0x65⟩ = ⟨.ok true, { m with
        registers := registers
        index := (m.index + (x.val + 1 : Nat)) % 4096 }, #[]⟩ := by
  obtain ⟨registers, hfilled, hrun⟩ :=
    Effect.loadLoop_run hcfg hpos (p := ⟨m, #[]⟩) hmemory hindex (Nat.succ_le_of_lt hx)
  refine ⟨registers, hfilled, ?_⟩
  exact carryOut_of_finish cfg input (Instruction.decode_misc x 0x65) rfl hrun

/-- Storing registers 0 to X puts each into a cell of its own and changes nothing else but the index
    register. Loading them from the same address brings them back, whatever they hold by then. And
    storing registers where they were loaded from changes no memory. -/
theorem blocks_inverse (hcfg : cfg.memorySize = size) (hsize : 16 ≤ size)
    (hshape : size ∣ 4096 ∨ 4096 ≤ size) (hmemory : m.memory.size = size)
    (hregisters : m.registers.size = 16) (hbytes : ∀ v ∈ m.registers, Byte.Fits v)
    (hindex : 0 ≤ m.index ∧ m.index < 4096) (x : Nibble) (input input' : Input)
    (address address' : Int) :
    let store : Fetched := ⟨address, .ofNibbles 0xF x, 0x55⟩
    let load : Fetched := ⟨address', .ofNibbles 0xF x, 0x65⟩
    let behind : Int := (m.index + (x.val + 1 : Nat)) % 4096
    (∃ memory, Stored (x.val + 1) (fun k => m.registers[k]?) (cellAt size m.index) m.memory memory ∧
      m.carryOut cfg input store = ⟨.ok true, { m with memory := memory, index := behind }, #[]⟩ ∧
      ∀ registers : Array Int, registers.size = 16 →
        (∀ k : Nat, x.val + 1 ≤ k → registers[k]? = m.registers[k]?) →
        carryOut cfg input' load { m with memory := memory, registers := registers }
          = ⟨.ok true, { m with memory := memory, index := behind }, #[]⟩) ∧
    (∃ registers, Filled (x.val + 1) m.memory (cellAt size m.index) m.registers registers ∧
      m.carryOut cfg input' load
        = ⟨.ok true, { m with registers := registers, index := behind }, #[]⟩ ∧
      carryOut cfg input store { m with registers := registers }
        = ⟨.ok true, { m with registers := registers, index := behind }, #[]⟩) := by
  intro store load behind
  have hpos : 0 < size := by omega
  constructor
  · -- stored first: the registers that are loaded hold what was stored, by `Filled.eq_of_stored`
    have hvalues : ∀ k < x.val + 1, ∃ b : Byte, m.registers[k]? = some (b.toNat : Int) := by
      intro k hk
      have hlt : k < m.registers.size := by omega
      obtain ⟨b, hb⟩ := (hbytes _ (Array.getElem_mem hlt)).exists_toNat
      exact ⟨b, hb ▸ Array.getElem?_eq_getElem hlt⟩
    obtain ⟨memory, hstored, hout⟩ :=
      carryOut_storeRegisters_bytes hcfg hsize hshape hmemory hindex hvalues input address
    refine ⟨memory, hstored, hout, ?_⟩
    intro registers hsixteen hothers
    obtain ⟨restored, hfilled, hback⟩ := carryOut_loadRegisters (x := x) hcfg hpos
      (m := { m with memory := memory, registers := registers }) (hstored.size.trans hmemory)
      hindex (hsixteen.symm ▸ x.isLt) input' address'
    obtain rfl : restored = m.registers := hfilled.eq_of_stored hstored hothers
    exact hback
  · -- loaded first: the registers hold bytes now, so all of them are stored where they were
    obtain ⟨registers, hfilled, hout⟩ := carryOut_loadRegisters (x := x) hcfg hpos hmemory hindex
      (hregisters.symm ▸ x.isLt) input' address'
    refine ⟨registers, hfilled, hout, ?_⟩
    have hvalues : ∀ k < x.val + 1, ∃ b : Byte, registers[k]? = some (b.toNat : Int) := by
      intro k hk
      obtain ⟨b, -, hafter⟩ := hfilled.bytes k hk
      exact ⟨b, hafter⟩
    obtain ⟨memory, hstored, hback⟩ := carryOut_storeRegisters_bytes hcfg hsize hshape
      (m := { m with registers := registers }) hmemory hindex hvalues input address
    obtain rfl : memory = m.memory := hfilled.eq_of_filled hstored
    exact hback

/-- Sixteen registers go around the end of a memory of sixteen cells, and back. -/
theorem blocks_inverse_around_end :
    let cfg : Config := { memorySize := 16 }
    let input : Input := ⟨fun _ => false, 0.0, 0⟩
    let m : Machine := { initial cfg 0.0 with
      registers := #[0, 17, 34, 51, 68, 85, 102, 119, 136, 153, 170, 187, 204, 221, 238, 255]
      index := 4090 }
    ∃ memory, memory[10]? = some 0 ∧ memory[15]? = some 85 ∧ memory[0]? = some 102 ∧
      memory[9]? = some 255 ∧
      m.carryOut cfg input ⟨0x200, 0xFF, 0x55⟩
        = ⟨.ok true, { m with memory := memory, index := 10 }, #[]⟩ ∧
      carryOut cfg input ⟨0x202, 0xFF, 0x65⟩
          { m with memory := memory, registers := Array.replicate 16 (-1) }
        = ⟨.ok true, { m with memory := memory, index := 10 }, #[]⟩ := by
  intro cfg input m
  obtain ⟨⟨memory, hstored, hout, hback⟩, -⟩ := blocks_inverse (m := m)
    (show cfg.memorySize = (16 : Nat) from rfl) (by decide) (by decide) rfl rfl (by decide)
    (by decide) 15 input input 0x200 0x202
  have hcell : ∀ (k : Nat) (b : Byte), k < 16 → m.registers[k]? = some (b.toNat : Int) →
      memory[cellAt 16 m.index k]? = some b := by
    intro k b hk hvalue
    obtain ⟨b', hvalue', hcell⟩ := hstored.bytes k hk
    rw [hvalue, Option.some.injEq, Int.natCast_inj, UInt8.toNat_inj] at hvalue'
    exact hvalue' ▸ hcell
  refine ⟨memory, hcell 0 0 (by decide) rfl, hcell 5 85 (by decide) rfl,
    hcell 6 102 (by decide) rfl, hcell 15 255 (by decide) rfl, hout, ?_⟩
  refine hback _ (by decide) fun k hk => ?_
  rw [Array.getElem?_eq_none (show (Array.replicate 16 (-1 : Int)).size ≤ k from hk),
    Array.getElem?_eq_none (show m.registers.size ≤ k from hk)]

end Machine

end Chip8
