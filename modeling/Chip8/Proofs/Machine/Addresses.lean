import Chip8.Proofs.Machine.Blocks

/-!
# All accesses agree on addresses

A step fetches a pair from memory, an instruction loads registers from there and another one draws a
sprite that lies there, and two instructions store. Some of them let the index register wrap at the
end of the address space, some add to it and wrap at the size of memory only, and drawing wraps at
the number of cells that there are. Where memory divides the address space, all of them still mean
the same cell by an offset from an address (`Machine.accesses_agree`), so what is stored is what is
loaded, drawn or executed later.

  * `Machine.Fetches`  : the pair that a step fetches and carries out,
  * `Screen.Switched`  : whether a pixel has changed,
  * `Found`            : a byte that everything finds that reads memory,
  * `Machine.Stows`    : values stored from the index register on, up to the first one that is no
    byte.
-/

namespace Chip8

/-! ## Fetching -/

/-- The machine has a pair to fetch, and a step fetches and carries out this pair. -/
structure Machine.Fetches (cfg : Config) (m : Machine) (pair : Fetched) : Prop where
  fetch : (Effect.fetchPair cfg).outcome m = ⟨.ok pair, m.advance, #[]⟩
  step : ∀ input, m.halted = false → m.step cfg input = Effect.settle
    ((Effect.executePair cfg input pair).run ⟨m.advance, Effect.traced cfg pair⟩)

/-- A pair that is ahead of a machine is what it fetches and carries out. -/
theorem Machine.fetches_of_fetched {cfg : Config} {m : Machine} {pair : Fetched}
    (h : m.fetched? cfg = some pair) : m.Fetches cfg pair where
  fetch := Effect.outcome_of_ok (Effect.fetchPair_of_fetched cfg (p := ⟨m, #[]⟩) h)
  step := fun input hh => step_of_fetched cfg input hh h

/-- The pair at the program counter is made of the byte there and the byte behind it. -/
theorem Machine.fetches_of_cells {cfg : Config} {size : Nat} (hcfg : cfg.memorySize = size)
    (hpos : 0 < size) {m : Machine} {opcode argument : Byte}
    (hopcode : m.memory[(m.counter % size).toNat]? = some opcode)
    (hargument : m.memory[((m.counter + 1) % size).toNat]? = some argument) :
    m.Fetches cfg ⟨m.counter, opcode, argument⟩ := by
  refine fetches_of_fetched ?_
  rw [fetched?, byteAt?_eq hcfg hpos, byteAt?_eq hcfg hpos, hopcode, hargument]
  rfl

/-! ## Drawing -/

/-- A pixel, which wraps at the edges, has changed from one screen to another or, with `false`, is
    as before. -/
def Screen.Switched (s s' : Screen) (x y : Int) (on : Bool) : Prop :=
  ∃ lit, s.pixel {} (x % s.width {}) (y % s.height {}) = .ok lit ∧
    s'.pixel {} (x % s.width {}) (y % s.height {}) = .ok (lit ^^ on)

/-- A sprite that is not too tall for the screen switches the pixels below its set bits. -/
theorem Screen.exists_switched {s : Screen} (hcells : s.cells.size = 128 * 64) (sp : Sprite)
    (hmemory : 0 < sp.memory.size) (hheight : sp.height ≤ 32) :
    ∃ hit s', (sp.paint {}).run s = .ok hit s' ∧ ∀ row col : Nat, (row : Int) < sp.height →
      col < 8 → s.Switched s' (sp.x + col) (sp.y + row) (sp.bit row col) := by
  obtain ⟨k, rows, cols, h, hrows, hcols⟩ := Screen.exists_tiled 0xFFFFFFFF 0xFF000000 hcells
  refine ⟨_, _, h.paint_run hmemory, ?_⟩
  intro row col hrow hcol
  obtain ⟨line, hline, hlines, -⟩ := Fault.exists_modulo (sp.y + row) h.pos.2.1
  obtain ⟨column, hcolumn, hcolumns, -⟩ := Fault.exists_modulo (sp.x + col) h.pos.2.2
  have hplace : sp.pixel rows cols row col = (line, column) := by
    rw [Sprite.pixel, hlines, hcolumns, Int.toNat_natCast, Int.toNat_natCast]
  have hflip := h.lit_flips_pixels (by decide) (show sp.height ≤ rows by omega) (by omega) hrow
    hcol false
  rw [hplace] at hflip
  refine ⟨s.lit {} k (line, column), ?_, ?_⟩
  · rw [h.width, h.height, hlines, hcolumns]
    exact h.pixel_eq hline hcolumn
  · rw [h.width, h.height, hlines, hcolumns, ← hflip]
    exact (h.flips _ false).pixel_eq hline hcolumn

/-- Drawing switches the pixels below the set bits, and the rows of the sprite wrap at the size of
    memory. -/
theorem Machine.carryOut_draw {cfg : Config} (hdisplay : cfg.display = {}) {m : Machine}
    (hmemory : 0 < m.memory.size) (hregisters : m.registers.size = 16)
    (hcells : m.screen.cells.size = 128 * 64) (x y n : Nibble) (input : Input) (address : Int) :
    ∃ after column line, m.registers[x.val]? = some column ∧ m.registers[y.val]? = some line ∧
      m.carryOut cfg input ⟨address, .ofNibbles 0xD x, .ofNibbles y n⟩ = ⟨.ok true, after, #[]⟩ ∧
      ∀ row col : Nat, row < n.val → col < 8 →
        m.screen.Switched after.screen (column + col) (line + row)
          (Byte.bit (m.memory[((m.index + row) % m.memory.size).toNat]?.getD 0) col) := by
  obtain ⟨column, hx⟩ := exists_register hregisters x
  obtain ⟨line, hy⟩ := exists_register hregisters y
  have htall : (n.val : Int) ≤ 32 := by omega
  obtain ⟨hit, s', hrun, hswitched⟩ :=
    Screen.exists_switched hcells ⟨m.memory, m.index, column, line, n⟩ hmemory htall
  replace hrun : (Paint.sprite cfg.display m.memory m.index column line n).run m.screen
      = .ok hit s' := by
    rw [hdisplay]
    exact hrun
  have hdraw := Effect.draw_run cfg (p := ⟨m, #[]⟩) hx hy (hregisters.symm ▸ flagRegister.isLt) hrun
  refine ⟨_, column, line, hx, hy,
    carryOut_of_finish cfg input (Instruction.decode_draw x y n) rfl hdraw, ?_⟩
  intro row col hrow hcol
  exact hswitched row col (Int.ofNat_lt.2 hrow) hcol

/-! ## Storing digits -/

/-- The hundreds, the tens and the units of a value. -/
def digit (v : Int) : Nat → Int
  | 0 => v / 100
  | 1 => v / 10 % 10
  | _ => v % 10

/-- Only the hundreds may be too large for a byte. -/
theorem digit_fits {v : Int} (h : Byte.Fits (v / 100)) (k : Nat) : Byte.Fits (digit v k) := by
  match k with
  | 0 => exact h
  | 1 =>
      show Byte.Fits (v / 10 % 10)
      omega
  | _ + 2 =>
      show Byte.Fits (v % 10)
      omega

namespace Effect

variable {cfg : Config} {size : Nat}

/-- One more value is stored behind those that were stored from an address on. -/
theorem store_run_behind (hcfg : cfg.memorySize = size) {n : Nat} (hn : n < size) {p : Progress}
    {before : Array Byte} (hbefore : before.size = size) {a : Int} {values : Nat → Int}
    (hstored : Stored n (fun k => some (values k)) (fun k => ((a + k) % size).toNat) before
      p.machine.memory) (hfits : Byte.Fits (values n)) :
    ∃ memory, Stored (n + 1) (fun k => some (values k)) (fun k => ((a + k) % size).toNat) before
        memory ∧
      (store cfg (a + n) (values n)).run p
        = .ok () ⟨{ p.machine with memory := memory }, p.events⟩ := by
  have hpos : 0 < size := by omega
  obtain ⟨b, hb⟩ := hfits.exists_toNat
  obtain ⟨place, hplace, hmod, -⟩ := Fault.exists_modulo (a + n) hpos
  have hlt : ((a + n) % size).toNat < before.size := by
    rw [hmod, Int.toNat_natCast, hbefore]
    exact hplace
  have hnew : ∀ k < n, ((a + n) % size).toNat ≠ ((a + k) % size).toNat := by
    intro k hk heq
    exact hk.ne' (wrap_inj hn (by omega) heq)
  refine ⟨_, hstored.succ (congrArg some hb) hlt hnew, ?_⟩
  rw [hb]
  exact store_run_byte hcfg hpos (hstored.size.symm ▸ hlt) b

/-- Digits whose hundreds are a byte are stored behind each other. -/
theorem storeDigits_run (hcfg : cfg.memorySize = size) (hsize : 3 ≤ size) {p : Progress}
    (hmemory : p.machine.memory.size = size) {x : Nibble} {v : Int}
    (hv : p.machine.registers[x.val]? = some v) (hfits : Byte.Fits (v / 100)) :
    ∃ memory, Stored 3 (fun k => some (digit v k))
        (fun k => ((p.machine.index + k) % size).toNat) p.machine.memory memory ∧
      (storeDigits cfg x).run p = .ok () ⟨{ p.machine with memory := memory }, p.events⟩ := by
  obtain ⟨memory₁, hstored₁, hrun₁⟩ := store_run_behind hcfg (show 0 < size by omega) hmemory
    (p := p) (a := p.machine.index) Stored.zero (digit_fits hfits 0)
  obtain ⟨memory₂, hstored₂, hrun₂⟩ := store_run_behind hcfg (show 1 < size by omega) hmemory
    (p := ⟨{ p.machine with memory := memory₁ }, p.events⟩) hstored₁ (digit_fits hfits 1)
  obtain ⟨memory₃, hstored₃, hrun₃⟩ := store_run_behind hcfg (show 2 < size by omega) hmemory
    (p := ⟨{ p.machine with memory := memory₂ }, p.events⟩) hstored₂ (digit_fits hfits 2)
  refine ⟨memory₃, hstored₃, ?_⟩
  have hfirst : p.machine.index + (0 : Nat) = p.machine.index := Int.add_zero _
  rw [hfirst] at hrun₁
  rw [storeDigits, run_bind_of_ok (register_run hv), run_bind_of_ok (run_machine p)]
  exact (run_bind_of_ok hrun₁).trans ((run_bind_of_ok hrun₂).trans hrun₃)

end Effect

/-! ## Agreement -/

/-- Everything that reads memory finds a byte at an offset from an address. -/
structure Found (cfg : Config) (memory : Array Byte) (a : Int) (k : Nat) (b : Byte) : Prop where
  /-- It is the first byte of the pair that is fetched there. -/
  opcode : ∀ m : Machine, m.memory = memory → m.counter = (a + k) % 4096 →
    ∃ argument, m.Fetches cfg ⟨m.counter, b, argument⟩
  /-- It is the second byte of the pair that is fetched one address before. -/
  argument : ∀ m : Machine, m.memory = memory → m.counter = (a + k - 1) % 4096 →
    ∃ opcode, m.Fetches cfg ⟨m.counter, opcode, b⟩
  /-- It is loaded into the register with the number of the offset. -/
  loaded : ∀ (m : Machine) (x : Nibble) (input : Input) (address : Int), m.memory = memory →
    m.index = a → m.registers.size = 16 → k ≤ x.val →
    ∃ after, m.carryOut cfg input ⟨address, .ofNibbles 0xF x, 0x65⟩ = ⟨.ok true, after, #[]⟩ ∧
      after.registers[k]? = some (b.toNat : Int)
  /-- It is drawn as the row with the number of the offset. -/
  drawn : ∀ (m : Machine) (x y n : Nibble) (input : Input) (address : Int), m.memory = memory →
    m.index = a → m.registers.size = 16 → m.screen.cells.size = 128 * 64 → k < n.val →
    ∃ after column line, m.registers[x.val]? = some column ∧ m.registers[y.val]? = some line ∧
      m.carryOut cfg input ⟨address, .ofNibbles 0xD x, .ofNibbles y n⟩ = ⟨.ok true, after, #[]⟩ ∧
      ∀ col : Nat, col < 8 →
        m.screen.Switched after.screen (column + col) (line + k) (Byte.bit b col)

namespace Machine

/-- An instruction stores the first `j` of `n` values from the index register on, where all that
    reads memory finds them, and it stops only at a value that is no byte. -/
structure Stows (cfg : Config) (m : Machine) (n : Nat) (values : Nat → Option Int)
    (out : Outcome Bool) (j : Nat) : Prop where
  stored : Stored j values (fun k => ((m.index + k) % cfg.memorySize).toNat) m.memory
    out.machine.memory
  found : ∀ k < j, ∀ b : Byte, values k = some (b.toNat : Int) →
    Found cfg out.machine.memory m.index k b
  done : j = n → ∃ after, out = ⟨.ok true, after, #[]⟩
  stopped : j < n → ∀ b : Byte, values j ≠ some (b.toNat : Int)

variable {cfg : Config} {size : Nat}

/-- What lies in the cell of an offset from an address is found there. -/
theorem found_of_cell (hcfg : cfg.memorySize = size) (hdisplay : cfg.display = {})
    (hpos : 0 < size) (hdvd : size ∣ 4096) {a : Int} (ha : 0 ≤ a ∧ a < 4096) {memory : Array Byte}
    (hmemory : memory.size = size) {k : Nat} {b : Byte}
    (hcell : memory[((a + k) % size).toNat]? = some b) : Found cfg memory a k b := by
  have hdvd' : (size : Int) ∣ 4096 := by exact_mod_cast hdvd
  have hthere : ∀ address : Int, ∃ b : Byte, memory[(address % size).toNat]? = some b := by
    intro address
    obtain ⟨n, hn, hmod, -⟩ := Fault.exists_modulo address hpos
    rw [hmod, Int.toNat_natCast]
    exact ⟨_, Array.getElem?_eq_getElem (hmemory.symm ▸ hn)⟩
  constructor
  -- the program counter wraps at the end of the address space and then at the size of memory
  case opcode =>
    intro m hm hcounter
    obtain ⟨argument, hargument⟩ := hthere (m.counter + 1)
    refine ⟨argument, fetches_of_cells hcfg hpos ?_ (hm ▸ hargument)⟩
    rw [hcounter, Int.emod_emod_of_dvd _ hdvd', hm]
    exact hcell
  case argument =>
    intro m hm hcounter
    obtain ⟨opcode, hopcode⟩ := hthere m.counter
    refine ⟨opcode, fetches_of_cells hcfg hpos (hm ▸ hopcode) ?_⟩
    have hbehind : (m.counter + 1) % size = (a + k) % size := by
      rw [hcounter, ← Int.emod_add_emod, Int.emod_emod_of_dvd _ hdvd', Int.emod_add_emod,
        Int.sub_add_cancel]
    rw [hbehind, hm]
    exact hcell
  case loaded =>
    intro m x input address hm hindex hregisters hk
    subst hm hindex
    obtain ⟨registers, hfilled, hout⟩ := carryOut_loadRegisters (x := x) hcfg hpos hmemory ha
      (hregisters.symm ▸ x.isLt) input address
    refine ⟨_, hout, ?_⟩
    obtain ⟨b', hcell', hregister⟩ := hfilled.bytes k (Nat.lt_succ_of_le hk)
    rw [cellAt_of_dvd hdvd, hcell] at hcell'
    cases hcell'
    exact hregister
  case drawn =>
    intro m x y n input address hm hindex hregisters hcells hk
    subst hm hindex
    obtain ⟨after, column, line, hx, hy, hout, hswitched⟩ := carryOut_draw hdisplay
      (hmemory.symm ▸ hpos) hregisters hcells x y n input address
    refine ⟨after, column, line, hx, hy, hout, ?_⟩
    intro col hcol
    have hrow := hswitched k col hk hcol
    rw [hmemory, hcell] at hrow
    exact hrow

/-- Values that were stored are found. -/
theorem found_of_stored (hcfg : cfg.memorySize = size) (hdisplay : cfg.display = {})
    (hpos : 0 < size) (hdvd : size ∣ 4096) {m : Machine} (hmemory : m.memory.size = size)
    (hindex : 0 ≤ m.index ∧ m.index < 4096) {j : Nat} {values : Nat → Option Int}
    {memory : Array Byte}
    (h : Stored j values (fun k => ((m.index + k) % size).toNat) m.memory memory) :
    ∀ k < j, ∀ b : Byte, values k = some (b.toNat : Int) → Found cfg memory m.index k b := by
  intro k hk b hvalue
  obtain ⟨b', hvalue', hcell⟩ := h.bytes k hk
  rw [hvalue, Option.some.injEq, Int.natCast_inj, UInt8.toNat_inj] at hvalue'
  subst hvalue'
  exact found_of_cell hcfg hdisplay hpos hdvd hindex (h.size.trans hmemory) hcell

/-- Registers are stored up to the first one that is no byte. -/
theorem stows_registers (hcfg : cfg.memorySize = size) (hdisplay : cfg.display = {})
    (hsize : 16 ≤ size) (hdvd : size ∣ 4096) {m : Machine} (hmemory : m.memory.size = size)
    (hindex : 0 ≤ m.index ∧ m.index < 4096) (x : Nibble) (input : Input) (address : Int) :
    ∃ j ≤ x.val + 1, m.Stows cfg (x.val + 1) (fun k => m.registers[k]?)
      (m.carryOut cfg input ⟨address, .ofNibbles 0xF x, 0x55⟩) j := by
  obtain ⟨j, memory, hstored, hout⟩ :=
    carryOut_storeRegisters hcfg hsize (Or.inl hdvd) hmemory hindex input address x
  rw [show cellAt size m.index = _ from funext (cellAt_of_dvd hdvd m.index)] at hstored
  have hfound := found_of_stored hcfg hdisplay (by omega) hdvd hmemory hindex hstored
  rcases hout with ⟨hj, hout⟩ | ⟨hj, hnot, f, hout⟩
  · refine ⟨j, hj.le, ?_⟩
    rw [hout]
    exact ⟨hcfg ▸ hstored, hfound, fun _ => ⟨_, rfl⟩, fun hlt => absurd hj hlt.ne⟩
  · refine ⟨j, hj.le, ?_⟩
    rw [hout]
    exact ⟨hcfg ▸ hstored, hfound, fun heq => absurd heq hj.ne, fun _ => hnot⟩

/-- All three digits are stored, or none. -/
theorem stows_digits (hcfg : cfg.memorySize = size) (hdisplay : cfg.display = {})
    (hsize : 3 ≤ size) (hdvd : size ∣ 4096) {m : Machine} (hmemory : m.memory.size = size)
    (hindex : 0 ≤ m.index ∧ m.index < 4096) (x : Nibble) (input : Input) (address : Int) :
    ∃ j ≤ 3, m.Stows cfg 3 (fun k => m.registers[x.val]?.map (digit · k))
      (m.carryOut cfg input ⟨address, .ofNibbles 0xF x, 0x33⟩) j := by
  have hpos : 0 < size := by omega
  have hdecode := Instruction.decode_misc x 0x33
  by_cases h : ∃ v, m.registers[x.val]? = some v ∧ Byte.Fits (v / 100)
  · obtain ⟨v, hv, hfits⟩ := h
    obtain ⟨memory, hstored, hrun⟩ :=
      Effect.storeDigits_run hcfg hsize (p := ⟨m, #[]⟩) hmemory hv hfits
    refine ⟨3, le_rfl, ?_⟩
    rw [carryOut_of_finish cfg input hdecode rfl hrun, hv]
    exact ⟨hcfg ▸ hstored, found_of_stored hcfg hdisplay hpos hdvd hmemory hindex hstored,
      fun _ => ⟨_, rfl⟩, fun hlt => absurd hlt (lt_irrefl 3)⟩
  · have hnot : ∀ b : Byte, m.registers[x.val]?.map (· / 100) ≠ some (b.toNat : Int) := by
      intro b hb
      obtain ⟨v, hv, hvalue⟩ := Option.map_eq_some_iff.1 hb
      exact h ⟨v, hv, hvalue ▸ b.fits_toNat⟩
    obtain ⟨f, hrun⟩ := Effect.storeDigits_run_not_byte hcfg hpos (p := ⟨m, #[]⟩) h
    refine ⟨0, Nat.zero_le 3, ?_⟩
    rw [carryOut_of_fault cfg input hdecode rfl hrun]
    exact ⟨Stored.zero, fun k hk => absurd hk (Nat.not_lt_zero k), fun heq => (nomatch heq),
      fun _ => hnot⟩

/-- The digits of a byte that were stored are loaded again, and they make up the byte. -/
theorem digits_load_back (hcfg : cfg.memorySize = size) (hsize : 3 ≤ size) (hdvd : size ∣ 4096)
    {m : Machine} (hmemory : m.memory.size = size) (hindex : 0 ≤ m.index ∧ m.index < 4096)
    (hregisters : m.registers.size = 16) {x y : Nibble} {b : Byte}
    (hb : m.registers[x.val]? = some (b.toNat : Int)) (hy : 2 ≤ y.val) (input input' : Input)
    (address address' : Int) :
    ∃ after after' : Machine, ∃ h t o : Nat,
      m.carryOut cfg input ⟨address, .ofNibbles 0xF x, 0x33⟩ = ⟨.ok true, after, #[]⟩ ∧
      after.index = m.index ∧
      after.carryOut cfg input' ⟨address', .ofNibbles 0xF y, 0x65⟩ = ⟨.ok true, after', #[]⟩ ∧
      after'.registers[0]? = some (h : Int) ∧ after'.registers[1]? = some (t : Int) ∧
      after'.registers[2]? = some (o : Int) ∧
      h ≤ 9 ∧ t ≤ 9 ∧ o ≤ 9 ∧ 100 * h + 10 * t + o = b.toNat := by
  have hlt := b.toNat_lt
  obtain ⟨memory, hstored, hrun⟩ := Effect.storeDigits_run hcfg hsize (p := ⟨m, #[]⟩) hmemory hb
    (show Byte.Fits ((b.toNat : Int) / 100) by omega)
  obtain ⟨registers, hfilled, hout⟩ := carryOut_loadRegisters (x := y) hcfg (by omega)
    (m := { m with memory := memory }) (hstored.size.trans hmemory) hindex
    (hregisters.symm ▸ y.isLt) input' address'
  rw [show cellAt size m.index = _ from funext (cellAt_of_dvd hdvd m.index)] at hfilled
  have hdigit : ∀ k < 3, registers[k]? = some (digit b.toNat k) := by
    intro k hk
    exact hfilled.getElem?_of_stored hstored (by omega) hk
  refine ⟨_, _, b.toNat / 100, b.toNat / 10 % 10, b.toNat % 10,
    carryOut_of_finish cfg input (Instruction.decode_misc x 0x33) rfl hrun, rfl, hout,
    hdigit 0 (by decide), hdigit 1 (by decide), hdigit 2 (by decide), ?_⟩
  omega

/-- **All accesses agree on addresses.** Where memory has its configured size, at least sixteen
    cells, and that size divides the address space, the cell of an offset from an address is the
    same for everything that reads memory. The two instructions that store put their values into
    these cells and into no others, so that they are found there. In particular the digits of a byte
    are loaded back from where they were stored, and they make up the byte. -/
theorem accesses_agree (hcfg : cfg.memorySize = size) (hdisplay : cfg.display = {})
    (hsize : 16 ≤ size) (hdvd : size ∣ 4096) {a : Int} (ha : 0 ≤ a ∧ a < 4096) :
    (∀ (memory : Array Byte) (k : Nat) (b : Byte), memory.size = size →
      memory[((a + k) % size).toNat]? = some b → Found cfg memory a k b) ∧
    ∀ (m : Machine) (x : Nibble) (input : Input) (address : Int), m.memory.size = size →
      m.index = a →
      (∃ j ≤ x.val + 1, m.Stows cfg (x.val + 1) (fun k => m.registers[k]?)
        (m.carryOut cfg input ⟨address, .ofNibbles 0xF x, 0x55⟩) j) ∧
      (∃ j ≤ 3, m.Stows cfg 3 (fun k => m.registers[x.val]?.map (digit · k))
        (m.carryOut cfg input ⟨address, .ofNibbles 0xF x, 0x33⟩) j) ∧
      ∀ (b : Byte) (y : Nibble) (input' : Input) (address' : Int), m.registers.size = 16 →
        m.registers[x.val]? = some (b.toNat : Int) → 2 ≤ y.val →
        ∃ after after' : Machine, ∃ h t o : Nat,
          m.carryOut cfg input ⟨address, .ofNibbles 0xF x, 0x33⟩ = ⟨.ok true, after, #[]⟩ ∧
          after.index = a ∧
          after.carryOut cfg input' ⟨address', .ofNibbles 0xF y, 0x65⟩
            = ⟨.ok true, after', #[]⟩ ∧
          after'.registers[0]? = some (h : Int) ∧ after'.registers[1]? = some (t : Int) ∧
          after'.registers[2]? = some (o : Int) ∧
          h ≤ 9 ∧ t ≤ 9 ∧ o ≤ 9 ∧ 100 * h + 10 * t + o = b.toNat := by
  have hpos : 0 < size := by omega
  refine ⟨fun memory k b hm => found_of_cell hcfg hdisplay hpos hdvd ha hm, ?_⟩
  intro m x input address hmemory hindex
  subst hindex
  refine ⟨stows_registers hcfg hdisplay hsize hdvd hmemory ha x input address,
    stows_digits hcfg hdisplay (by omega) hdvd hmemory ha x input address, ?_⟩
  intro b y input' address' hregisters hb hy
  exact digits_load_back hcfg (by omega) hdvd hmemory ha hregisters hb hy input input' address
    address'

/-- The digits of 234 go around the end of a memory of sixteen cells, and the byte behind them is
    found from the last address on. -/
theorem accesses_agree_around_end :
    let cfg : Config := { memorySize := 16 }
    let input : Input := ⟨fun _ => false, 0.0, 0⟩
    let m : Machine := { initial cfg 0.0 with
      memory := (Array.replicate 16 0).setIfInBounds 2 7
      registers := (Array.replicate 16 0).setIfInBounds 3 234
      index := 4095 }
    Found cfg m.memory 4095 3 7 ∧
      ∃ after after' : Machine,
        m.carryOut cfg input ⟨0, 0xF3, 0x33⟩ = ⟨.ok true, after, #[]⟩ ∧
        after.carryOut cfg input ⟨2, 0xF2, 0x65⟩ = ⟨.ok true, after', #[]⟩ ∧
        after'.registers[0]? = some 2 ∧ after'.registers[1]? = some 3 ∧
        after'.registers[2]? = some 4 := by
  intro cfg input m
  obtain ⟨hfound, hstores⟩ := accesses_agree
    (show cfg.memorySize = (16 : Nat) from rfl) rfl (by decide) (by decide) (a := 4095) (by decide)
  obtain ⟨-, -, hdigits⟩ := hstores m 3 input 0 rfl rfl
  refine ⟨hfound m.memory 3 7 rfl rfl, ?_⟩
  obtain ⟨after, after', h, t, o, hstore, -, hload, hh, ht, ho, hh9, ht9, ho9, hsum⟩ :=
    hdigits 234 2 input 2 rfl rfl (by decide)
  rw [show (234 : Byte).toNat = 234 from rfl] at hsum
  obtain ⟨rfl, rfl, rfl⟩ : h = 2 ∧ t = 3 ∧ o = 4 := by omega
  exact ⟨after, after', hstore, hload, hh, ht, ho⟩

end Machine

end Chip8
