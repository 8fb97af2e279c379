import Chip8.Proofs.Machine.Trap

/-!
# Valid machines

With the usual configuration a machine has a fixed shape and keeps its values in range:
`Machine.Valid` says which. Every instruction keeps a valid machine valid and stops with nothing
but a trap, as long as the clock does not run backwards for an instruction that reads the delay
timer (`Effect.execute_safe`), and so does a step (`Machine.Valid.step`).

The effects that instructions are built from are `Effect.Safe` one by one. What makes this work
is that the clauses of `Machine.Valid` support each other: registers hold bytes because
arithmetic, random numbers, keys and memory give bytes, and memory holds bytes because registers
do.
-/

namespace Chip8

/-- A value that fits into a byte. -/
abbrev Byte.Fits (v : Int) : Prop := 0 ≤ v ∧ v ≤ 255

theorem Byte.fits_toNat (b : Byte) : Byte.Fits b.toNat := by
  have hlt := b.toNat_lt
  omega

/-- A value that fits is a byte. -/
theorem Byte.Fits.exists_toNat {v : Int} (h : Byte.Fits v) : ∃ b : Byte, v = b.toNat := by
  refine ⟨Byte.wrap v, ?_⟩
  rw [Byte.toNat_wrap]
  omega

theorem Byte.fits_emod (v : Int) : Byte.Fits (v % 256) := by omega

theorem flag_fits (b : Bool) : Byte.Fits (flag b) := by
  cases b <;> decide

namespace Operator

/-- Combining bytes gives a byte. -/
theorem result_fits (op : Operator) {x y : Int} (hx : Byte.Fits x) (hy : Byte.Fits y) :
    Byte.Fits (op.result x y) := by
  obtain ⟨m, rfl⟩ := Int.eq_ofNat_of_zero_le hx.1
  obtain ⟨n, rfl⟩ := Int.eq_ofNat_of_zero_le hy.1
  have hm : m < 2 ^ 8 := by omega
  have hn : n < 2 ^ 8 := by omega
  cases op with
  | copy => exact hy
  | or =>
      have hlt := Nat.or_lt_two_pow hm hn
      show Byte.Fits ((m ||| n : Nat) : Int)
      omega
  | and =>
      have hlt := Nat.and_lt_two_pow m hn
      show Byte.Fits ((m &&& n : Nat) : Int)
      omega
  | xor =>
      have hlt := Nat.xor_lt_two_pow hm hn
      show Byte.Fits ((m ^^^ n : Nat) : Int)
      omega
  | add => exact Byte.fits_emod _
  | sub => exact Byte.fits_emod _
  | subFrom => exact Byte.fits_emod _

theorem flag_of_flag? {op : Operator} {x y f : Int} (h : op.flag? x y = some f) :
    Byte.Fits f := by
  cases op with
  | add =>
      cases h
      exact flag_fits _
  | sub =>
      cases h
      exact flag_fits _
  | subFrom =>
      cases h
      exact flag_fits _
  | _ => cases h

end Operator

namespace Shift

/-- Shifting a byte gives a byte. -/
theorem result_fits (dir : Shift) {x : Int} (hx : Byte.Fits x) : Byte.Fits (dir.result x) := by
  cases dir with
  | right =>
      show Byte.Fits (x / 2)
      omega
  | left => exact Byte.fits_emod _

theorem lost_fits (dir : Shift) (x : Int) : Byte.Fits (dir.lost x) := by
  cases dir with
  | right =>
      show Byte.Fits (x % 2)
      omega
  | left =>
      show Byte.Fits (x / 128 % 2)
      omega

end Shift

namespace Machine

/-- A machine of the usual shape with every value in its range. -/
structure Valid (m : Machine) : Prop where
  memory : m.memory.size = 4096
  bytes : ∀ b ∈ m.memory, Byte.Fits b.toNat := fun b _ => b.fits_toNat
  registers : m.registers.size = 16
  values : ∀ v ∈ m.registers, Byte.Fits v
  index : 0 ≤ m.index ∧ m.index < 4096
  counter : 0 ≤ m.counter ∧ m.counter < 4096
  depth : m.depth ≤ 16
  stack : m.stack.size = 16
  returns : ∀ a ∈ m.stack, 0 ≤ a ∧ a ≤ 4095
  timer : Byte.Fits m.timer.value.toNat := Byte.fits_toNat _
  screen : m.screen.Sound

namespace Valid

variable {m : Machine}

theorem register_lt (h : m.Valid) {x : Nat} (hx : x < 16) : x < m.registers.size := by
  rw [h.registers]
  exact hx

/-- An address is the number of a cell. -/
theorem memory_place (h : m.Valid) {place : Int} (hplace : 0 ≤ place ∧ place < 4096) :
    ∃ n : Nat, place = n ∧ n < m.memory.size := by
  obtain ⟨n, rfl⟩ := Int.eq_ofNat_of_zero_le hplace.1
  refine ⟨n, rfl, ?_⟩
  rw [h.memory]
  omega

theorem setRegister (h : m.Valid) (x : Nat) {v : Int} (hv : Byte.Fits v) :
    Valid { m with registers := m.registers.setIfInBounds x v } :=
  { h with
    registers := (Array.size_setIfInBounds ..).trans h.registers
    values := fun w hw => by
      rcases Array.mem_or_eq_of_mem_setIfInBounds hw with hw | rfl
      · exact h.values w hw
      · exact hv }

theorem setMemory (h : m.Valid) {memory : Array Byte} (hm : memory.size = 4096) :
    Valid { m with memory := memory } :=
  { h with memory := hm, bytes := fun b _ => b.fits_toNat }

theorem setIndex (h : m.Valid) (a : Int) : Valid { m with index := Address.wrap a } :=
  { h with index := ⟨Address.wrap_nonneg a, Address.wrap_lt a⟩ }

theorem jump (h : m.Valid) (a : Int) : Valid { m with counter := Address.wrap a } :=
  { h with counter := ⟨Address.wrap_nonneg a, Address.wrap_lt a⟩ }

theorem setScreen (h : m.Valid) {s : Screen} (hs : s.Sound) : Valid { m with screen := s } :=
  { h with screen := hs }

theorem advance (h : m.Valid) : m.advance.Valid := h.jump _

/-- A push with room on the stack. -/
theorem push (h : m.Valid) (target : Address) (hroom : m.depth < 16) :
    Valid { m with
      stack := m.stack.setIfInBounds m.depth m.counter
      depth := m.depth + 1
      counter := target } :=
  { h with
    counter := by
      have hlt := target.isLt
      show 0 ≤ ((target.val : Nat) : Int) ∧ ((target.val : Nat) : Int) < 4096
      omega
    depth := hroom
    stack := (Array.size_setIfInBounds ..).trans h.stack
    returns := fun a ha => by
      rcases Array.mem_or_eq_of_mem_setIfInBounds ha with ha | rfl
      · exact h.returns a ha
      · have hc := h.counter
        omega }

/-- A pop of an address from the stack. -/
theorem pop (h : m.Valid) {depth : Nat} {a : Int} (hdepth : m.depth = depth + 1)
    (ha : m.stack[depth]? = some a) : Valid { m with depth := depth, counter := a } :=
  { h with
    counter := by
      have hr := h.returns a (Array.mem_of_getElem? ha)
      show 0 ≤ a ∧ a < 4096
      omega
    depth := by
      have hd := h.depth
      show depth ≤ 16
      omega }

end Valid

end Machine

namespace Effect

open Machine (Valid)

/-! ## Effects on valid machines -/

variable {α β : Type} {ans : α → Prop} {post : β → Prop}

/-- An effect that keeps a machine valid and gives an answer in `ans` or stops with a trap. -/
abbrev Safe (ans : α → Prop) (eff : Effect α) : Prop := Upholds Valid Fault.IsTrap ans eff

/-- An effect whose answer does not matter. -/
abbrev Harmless (eff : Effect α) : Prop := Safe (fun _ => True) eff

theorem Safe.pure {a : α} (h : ans a) : Safe ans (pure a) := Chip8.Upholds.pure h

theorem Safe.bind {eff : Effect α} {next : α → Effect β} (h : Safe ans eff)
    (hnext : ∀ a, ans a → Safe post (next a)) : Safe post (eff >>= next) :=
  Chip8.Upholds.bind h hnext

theorem Safe.machine : Safe Valid Effect.machine := Upholds.machine

theorem Safe.change {f : Machine → Machine} (h : ∀ m : Machine, m.Valid → (f m).Valid) :
    Harmless (Effect.change f) := Upholds.change h

theorem Safe.emit (e : Event) : Harmless (Effect.emit e) := Upholds.emit

/-- Wrapping into the usual memory cannot fail. -/
theorem Safe.place (address : Int) :
    Safe (fun place => 0 ≤ place ∧ place < 4096)
      (ofExcept (Fault.modulo address ({} : Config).memorySize)) := by
  have hpos : 0 < ({} : Config).memorySize := by decide
  exact Chip8.Upholds.ofExcept (fun place h => Fault.modulo_inRange hpos h)
    fun f h => absurd h (Fault.modulo_ne_error hpos f)

/-- A register that exists is read, and what it holds is a byte. -/
theorem register_safe {x : Nat} (hx : x < 16) : Safe Byte.Fits (register x) := by
  refine Safe.bind Safe.machine fun m hm => ?_
  have hlt := hm.register_lt hx
  rw [Array.getElem?_eq_getElem hlt]
  exact Safe.pure (hm.values _ (Array.getElem_mem hlt))

theorem setRegister_safe {x : Nat} {v : Int} (hx : x < 16) (hv : Byte.Fits v) :
    Harmless (setRegister x v) := by
  refine Safe.bind Safe.machine fun m hm => ?_
  have hlt := hm.register_lt hx
  rw [if_pos hlt]
  exact Safe.change fun m' hm' => hm'.setRegister x hv

/-- Fetching cannot fail, because every address wraps into memory. -/
theorem fetch_safe (address : Int) : Harmless (fetch {} address) := by
  refine Safe.bind (Safe.place address) fun place hplace => ?_
  refine Safe.bind Safe.machine fun m hm => ?_
  obtain ⟨n, rfl, hlt⟩ := hm.memory_place hplace
  rw [Cells.get?_natCast, Array.getElem?_eq_getElem hlt]
  exact Safe.pure trivial

/-- Only bytes may be stored. -/
theorem store_safe (address : Int) {v : Int} (hv : Byte.Fits v) :
    Harmless (store {} address v) := by
  refine Safe.bind (Safe.place address) fun place hplace => ?_
  refine Safe.bind Safe.machine fun m hm => ?_
  obtain ⟨n, rfl, hlt⟩ := hm.memory_place hplace
  have hbyte : Byte.ofInt? v = some (UInt8.ofNat v.toNat) := by
    rw [Byte.ofInt?, if_pos (by omega)]
  rw [Cells.position?_natCast hlt, hbyte]
  refine Safe.change fun m' hm' => hm'.setMemory ?_
  exact (Array.size_setIfInBounds ..).trans hm'.memory

theorem setIndex_safe (a : Int) : Harmless (setIndex a) :=
  Safe.change fun _ hm => hm.setIndex a

theorem jump_safe (a : Int) : Harmless (jump a) := Safe.change fun _ hm => hm.jump a

theorem skipIf_safe (condition : Bool) : Harmless (skipIf condition) := by
  rw [skipIf]
  split
  · exact Safe.bind Safe.machine fun m _ => jump_safe _
  · exact Safe.pure trivial

theorem paint_safe {act : Paint α} (h : act.Safe) : Harmless (paint act) :=
  Upholds.paint (fun _ hm => hm.screen) (fun _ _ hm hs => hm.setScreen hs)
    (h.mono (fun _ hf => hf.elim) fun _ ha => ha)

/-! ## Instructions on valid machines -/

variable (input : Input) (pair : Fetched)

theorem trap_safe (kind : TrapKind) : Safe ans (trap pair kind : Effect α) :=
  (Upholds.trap pair (fun _ hm => { hm with }) trivial).mono (fun _ hf => hf) fun _ h => h.elim

/-- A call pushes an address, or it traps on a full stack. -/
theorem call_safe (target : Address) : Harmless (call {} pair target) := by
  intro p hp
  -- whether there is room is known of the machine that is looked at, which `Safe.bind` forgets
  by_cases hfull : ({} : Config).stackSize ≤ p.machine.depth
  · have htrap : Harmless (trap pair .stackOverflow : Effect Unit) := trap_safe pair _
    rw [call_run_full {} pair _ hfull]
    exact htrap p hp
  · have hroom : p.machine.depth < 16 := Int.ofNat_lt.1 (Int.not_le.1 hfull)
    have hcell : p.machine.depth < p.machine.stack.size := by
      rw [hp.stack]
      exact hroom
    rw [call_run_room {} pair _ hfull hcell]
    exact ⟨trivial, hp.push target hroom⟩

/-- A return pops an address, or it traps on an empty stack. -/
theorem ret_safe : Harmless (ret pair) := by
  intro p hp
  cases hdepth : p.machine.depth with
  | zero =>
      have htrap : Harmless (trap pair .stackUnderflow : Effect Unit) := trap_safe pair _
      rw [ret_run_empty pair hdepth]
      exact htrap p hp
  | succ depth =>
      have hd := hp.depth
      have hlt : depth < p.machine.stack.size := by
        rw [hp.stack]
        omega
      have hcell := Array.getElem?_eq_getElem hlt
      rw [ret_run_pending pair hdepth, hcell]
      exact ⟨trivial, hp.pop hdepth hcell⟩

/-- The screen can be scrolled down by any number of lines. -/
theorem scroll_safe (n : Nibble) : Harmless (scroll {} n) := by
  intro p hp
  obtain ⟨s, hs, hsound⟩ := hp.screen.scroll (Int.natCast_nonneg n)
  simp only [scroll, machine, EStateM.run_bind, EStateM.run_get, EStateM.run_pure]
  rw [hs]
  exact ⟨trivial, hp.setScreen hsound⟩

theorem comparand_safe (other : Comparand) : Harmless (comparand other) := by
  cases other with
  | byte nn => exact Safe.pure trivial
  | register y => exact (register_safe y.isLt).any

theorem combine_safe (op : Operator) (x y : Nibble) : Harmless (combine op x y) := by
  refine Safe.bind (register_safe x.isLt) fun a ha => ?_
  refine Safe.bind (register_safe y.isLt) fun b hb => ?_
  have hresult := setRegister_safe x.isLt (op.result_fits ha hb)
  cases hf : op.flag? a b with
  | none => exact hresult
  | some f =>
      refine Safe.bind (setRegister_safe flagRegister.isLt ?_) fun _ _ => hresult
      exact Operator.flag_of_flag? hf

theorem shift_safe (dir : Shift) (x : Nibble) : Harmless (shift dir x) := by
  refine Safe.bind (register_safe x.isLt) fun a ha => ?_
  refine Safe.bind (setRegister_safe flagRegister.isLt (dir.lost_fits a)) fun _ _ => ?_
  exact setRegister_safe x.isLt (dir.result_fits ha)

theorem random_safe (x : Nibble) (mask : Byte) : Harmless (random input x mask) :=
  Safe.bind (Safe.emit _) fun _ _ => setRegister_safe x.isLt (Byte.fits_toNat _)

/-- A sprite can be drawn anywhere, because it wraps in memory and on the screen. -/
theorem draw_safe (x y n : Nibble) : Harmless (draw {} x y n) := by
  refine Safe.bind (register_safe x.isLt) fun column _ => ?_
  refine Safe.bind (register_safe y.isLt) fun line _ => ?_
  refine Safe.bind Safe.machine fun m hm => ?_
  have hpos : 0 < m.memory.size := by
    rw [hm.memory]
    decide
  refine Safe.bind (paint_safe (Paint.sprite_safe _ _ _ _ hpos)) fun hit _ => ?_
  exact setRegister_safe flagRegister.isLt (flag_fits hit)

theorem pollKey_safe (key : Int) : Harmless (pollKey input key) :=
  Safe.bind (Safe.emit _) fun _ _ => Safe.pure trivial

/-- A key that is found is one of those looked at. -/
theorem firstPressed_safe (key n : Nat) :
    Safe (fun found => ∀ k, found = some k → k < key + n) (firstPressed input key n) := by
  induction n generalizing key with
  | zero => exact Safe.pure fun k hk => nomatch hk
  | succ n ih =>
      refine Safe.bind (pollKey_safe input key) fun pressed _ => ?_
      -- either this key is down, or one of the `n` keys behind it is found
      cases pressed with
      | true =>
          refine Safe.pure fun k hk => ?_
          cases hk
          omega
      | false =>
          refine (ih (key + 1)).mono (fun _ hf => hf) fun found hfound k hk => ?_
          have hlt := hfound k hk
          omega

/-- A key is below sixteen, so its number is a byte. -/
theorem awaitKey_safe (x : Nibble) : Harmless (awaitKey {} input x) := by
  refine Safe.bind (firstPressed_safe input 0 16) fun found hfound => ?_
  cases found with
  | some key =>
      have hkey := hfound key rfl
      have hfits : Byte.Fits key := by omega
      refine Safe.bind (setRegister_safe x.isLt hfits) fun _ _ => ?_
      exact Safe.bind (Safe.change fun m hm => { hm with }) fun _ _ => Safe.pure trivial
  | none =>
      refine Safe.bind (Safe.change fun m hm => { hm with }) fun _ _ => ?_
      refine Safe.bind Safe.machine fun m _ => ?_
      exact Safe.bind (jump_safe _) fun _ _ => Safe.pure trivial

/-- The three digits of a byte are bytes. -/
theorem storeDigits_safe (x : Nibble) : Harmless (storeDigits {} x) := by
  refine Safe.bind (register_safe x.isLt) fun v hv => ?_
  refine Safe.bind Safe.machine fun m _ => ?_
  have hundreds : Byte.Fits (v / 100) := by omega
  have htens : Byte.Fits (v / 10 % 10) := by omega
  have hunits : Byte.Fits (v % 10) := by omega
  refine Safe.bind (store_safe _ hundreds) fun _ _ => ?_
  exact Safe.bind (store_safe _ htens) fun _ _ => store_safe _ hunits

/-- Registers hold bytes, which can be stored anywhere. -/
theorem storeRegisters_safe (x : Nibble) : Harmless (storeRegisters {} x) := by
  refine Chip8.Upholds.forM fun k hk => ?_
  have hlt : k < 16 := Nat.lt_of_lt_of_le (List.mem_range.1 hk) x.isLt
  refine Safe.bind (register_safe hlt) fun v hv => ?_
  refine Safe.bind Safe.machine fun m _ => ?_
  exact Safe.bind (store_safe _ hv) fun _ _ => setIndex_safe _

/-- What is loaded from memory is a byte. -/
theorem loadRegisters_safe (x : Nibble) : Harmless (loadRegisters {} x) := by
  refine Chip8.Upholds.forM fun k hk => ?_
  have hlt : k < 16 := Nat.lt_of_lt_of_le (List.mem_range.1 hk) x.isLt
  refine Safe.bind Safe.machine fun m _ => ?_
  refine Safe.bind (fetch_safe _) fun b _ => ?_
  exact Safe.bind (setRegister_safe hlt b.fits_toNat) fun _ _ => setIndex_safe _

theorem finish_safe {eff : Effect Unit} (h : Harmless eff) : Harmless (finish eff) :=
  Safe.bind h fun _ _ => Safe.pure trivial

/-- Every instruction but the one that reads the delay timer is harmless on a valid machine. -/
theorem execute_safe (i : Instruction) (h : ∀ x, i ≠ .readTimer x) :
    Harmless (execute {} input pair i) := by
  cases i with
  | clear => exact finish_safe (Safe.change fun m hm => hm.setScreen hm.screen.clear)
  | ret => exact finish_safe (ret_safe pair)
  | resolution high =>
      exact finish_safe (Safe.change fun m hm => hm.setScreen (hm.screen.setExtended high))
  | scroll n => exact finish_safe (scroll_safe n)
  | jump target => exact finish_safe (jump_safe _)
  | call target => exact finish_safe (call_safe pair target)
  | skip equal x other =>
      refine finish_safe (Safe.bind (register_safe x.isLt) fun a _ => ?_)
      exact Safe.bind (comparand_safe other) fun b _ => skipIf_safe _
  | load x nn => exact finish_safe (setRegister_safe x.isLt nn.fits_toNat)
  | add x nn =>
      refine finish_safe (Safe.bind (register_safe x.isLt) fun a _ => ?_)
      exact setRegister_safe x.isLt (Byte.fits_emod _)
  | combine op x y => exact finish_safe (combine_safe op x y)
  | shift dir x => exact finish_safe (shift_safe dir x)
  | index target => exact finish_safe (setIndex_safe _)
  | jumpOffset base =>
      exact finish_safe (Safe.bind (register_safe (by decide)) fun a _ => jump_safe _)
  | random x mask => exact finish_safe (random_safe input x mask)
  | draw x y n => exact finish_safe (draw_safe x y n)
  | skipKey down x =>
      refine finish_safe (Safe.bind (register_safe x.isLt) fun a _ => ?_)
      exact Safe.bind (pollKey_safe input _) fun pressed _ => skipIf_safe _
  | readTimer x => exact absurd rfl (h x)
  | awaitKey x => exact awaitKey_safe input x
  | setTimer x =>
      refine finish_safe (Safe.bind (register_safe x.isLt) fun v _ => ?_)
      exact Safe.change fun m hm => { hm with timer := Byte.fits_toNat _ }
  | beep x => exact finish_safe (Safe.emit _)
  | advanceIndex x =>
      refine finish_safe (Safe.bind (register_safe x.isLt) fun v _ => ?_)
      exact Safe.bind Safe.machine fun m _ => setIndex_safe _
  | glyph x =>
      exact finish_safe (Safe.bind (register_safe x.isLt) fun v _ => setIndex_safe _)
  | storeDigits x => exact finish_safe (storeDigits_safe x)
  | storeRegisters x => exact finish_safe (storeRegisters_safe x)
  | loadRegisters x => exact finish_safe (loadRegisters_safe x)

/-- Reading the delay timer puts what it shows into a register. -/
theorem readTimer_run (cfg : Config) {p : Progress} {v : Int} (x : Nibble)
    (hshown : p.machine.delay cfg input.now = .ok v) :
    (execute cfg input pair (.readTimer x)).run p = (finish (setRegister x v)).run p := by
  show (finish (do
    let v ← ofExcept ((← machine).delay cfg input.now)
    setRegister x v)).run p = _
  rw [finish_run, finish_run]
  simp only [machine, EStateM.run_bind, EStateM.run_get, EStateM.run_pure, hshown]
  rfl

/-- What a step makes of a harmless effect is a valid machine, with an answer or a trap. -/
theorem settle_safe {eff : Effect Bool} (h : Harmless eff) {p : Progress}
    (hp : p.machine.Valid) :
    (settle (eff.run p)).machine.Valid ∧
      ((∃ done, (settle (eff.run p)).result = .ok done) ∨
        ∃ t, (settle (eff.run p)).result = .error (.trap t)) := by
  have hrun := h p hp
  cases hr : eff.run p with
  | ok done p' =>
      rw [hr] at hrun
      cases done with
      | true => exact ⟨{ hrun.2 with }, Or.inl ⟨true, rfl⟩⟩
      | false => exact ⟨hrun.2, Or.inl ⟨false, rfl⟩⟩
  | error f p' =>
      rw [hr] at hrun
      cases f with
      | trap t => exact ⟨hrun.2, Or.inr ⟨t, rfl⟩⟩
      | _ => exact hrun.1.elim

end Effect

namespace Machine

/-- Whole ticks have passed since the delay timer was set, if the next instruction reads it. -/
def OnTime (cfg : Config) (m : Machine) (input : Input) : Prop :=
  ∀ x, m.next? cfg = some (.readTimer x) →
    ∃ n : Nat, ticksBetween cfg.timerFrequency m.timer.setTime input.now = .ok n

/-- The delay timer shows a byte, if the next instruction reads it. -/
def ShowsByte (cfg : Config) (m : Machine) (input : Input) : Prop :=
  ∀ x, m.next? cfg = some (.readTimer x) → ∃ v, Byte.Fits v ∧ m.delay cfg input.now = .ok v

/-- A timer shows what is left of a byte, if the clock has not gone back since it was set. -/
theorem OnTime.showsByte {cfg : Config} {m : Machine} {input : Input} (h : OnTime cfg m input) :
    ShowsByte cfg m input := by
  intro x hx
  obtain ⟨n, hticks⟩ := h x hx
  refine ⟨max 0 (m.timer.value.toNat - n), ?_, DelayTimer.read_of_ticks hticks⟩
  have hfits := m.timer.value.fits_toNat
  omega

/-- There is a byte at every address of a memory of the usual size. -/
theorem exists_byteAt {m : Machine} (h : m.memory.size = 4096) (address : Int) :
    ∃ b, m.byteAt? {} address = some b := by
  have hpos : 0 < ({} : Config).memorySize := by decide
  have hplace := Fault.modulo_of_pos address hpos
  obtain ⟨hnonneg, hlt⟩ : 0 ≤ address % 4096 ∧ address % 4096 < 4096 :=
    Fault.modulo_inRange hpos hplace
  obtain ⟨n, hn⟩ := Int.eq_ofNat_of_zero_le hnonneg
  have hcell : n < m.memory.size := by omega
  refine ⟨m.memory[n], ?_⟩
  rw [byteAt?, hplace]
  show Cells.get? m.memory (address % 4096) = some m.memory[n]
  rw [hn, Cells.get?_natCast, Array.getElem?_eq_getElem hcell]

/-- With a memory of the usual size there is always a pair to fetch. -/
theorem exists_fetched {m : Machine} (h : m.memory.size = 4096) :
    ∃ pair, m.fetched? {} = some pair := by
  obtain ⟨opcode, ho⟩ := exists_byteAt h m.counter
  obtain ⟨argument, ha⟩ := exists_byteAt h (m.counter + 1)
  refine ⟨⟨m.counter, opcode, argument⟩, ?_⟩
  rw [fetched?, ho, ha]
  rfl

namespace Valid

variable {m : Machine}

/-- A step leaves a valid machine, with an answer or a trap, if the delay timer shows a byte when it
    is read. -/
theorem step_of_showsByte (h : m.Valid) {input : Input} (hshows : ShowsByte {} m input) :
    (m.step {} input).machine.Valid ∧
      ((∃ done, (m.step {} input).result = .ok done) ∨
        ∃ t, (m.step {} input).result = .error (.trap t)) := by
  rcases m.ahead {} with hh | ⟨_, hp⟩ | ⟨pair, hh, hp, hd⟩ | ⟨pair, i, hh, hp, hd⟩
  · rw [step_of_halted {} input hh]
    exact ⟨h, Or.inl ⟨false, rfl⟩⟩
  · -- a valid machine always has a pair to fetch
    obtain ⟨pair, hpair⟩ := exists_fetched h.memory
    rw [hp] at hpair
    cases hpair
  · rw [step_of_fetched {} input hh hp, Effect.executePair, hd]
    exact Effect.settle_safe (Effect.trap_safe pair .illegal) h.advance
  · rw [step_of_fetched {} input hh hp, Effect.executePair, hd]
    by_cases hread : ∃ x, i = .readTimer x
    · obtain ⟨x, rfl⟩ := hread
      obtain ⟨v, hv, hshown⟩ := hshows x ((next?_of_fetched {} hh hp).trans hd)
      have hrun := Effect.readTimer_run input pair {}
        (p := ⟨m.advance, Effect.traced {} pair⟩) x hshown
      dsimp only
      rw [hrun]
      exact Effect.settle_safe (Effect.finish_safe (Effect.setRegister_safe x.isLt hv)) h.advance
    · have hsafe := Effect.execute_safe input pair i fun x hx => hread ⟨x, hx⟩
      exact Effect.settle_safe hsafe h.advance

/-- A step leaves a valid machine, with an answer or a trap, if the clock does not go back behind
    the delay timer. -/
theorem step (h : m.Valid) {input : Input} (hclock : OnTime {} m input) :
    (m.step {} input).machine.Valid ∧
      ((∃ done, (m.step {} input).result = .ok done) ∨
        ∃ t, (m.step {} input).result = .error (.trap t)) :=
  h.step_of_showsByte hclock.showsByte

end Valid

end Machine

end Chip8
