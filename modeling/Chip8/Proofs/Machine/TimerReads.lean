import Chip8.Proofs.Machine.Waiting

/-!
# Reads of the delay timer

A read of the delay timer goes into a register as it is. It is never negative, but if the clock has
gone back since the timer was set, then more than the value that was set is left of it, and nothing
keeps that below 256: the register holds a byte exactly if the clock has gone back by few enough
ticks (`Machine.timer_read_exact`). All registers hold bytes as long as no read is larger than that
(`Machine.Reachable.registers_fit`), which goes for every clock that does not go back.

  * `Machine.Ticking`        : what is taken for granted about the clock,
  * `Machine.step_readTimer` : a step that reads the timer.
-/

namespace Chip8.Machine

variable {cfg : Config} {m : Machine} {input : Input} {x : Nibble}

/-- The ticks since the delay timer was set can be counted, if the next instruction reads it. -/
def Ticking (cfg : Config) (m : Machine) (input : Input) : Prop :=
  ∀ x, m.next? cfg = some (.readTimer x) →
    ∃ k : Int, ticksBetween cfg.timerFrequency m.timer.setTime input.now = .ok k

/-- A step that reads the timer puts what it shows into the register, and that is all it does with
    registers. -/
theorem step_readTimer {v : Int} (hx : x.val < m.registers.size)
    (hnext : m.next? cfg = some (.readTimer x)) (hshown : m.delay cfg input.now = .ok v) :
    (m.step cfg input).result = .ok true ∧
      (m.step cfg input).machine.registers = m.registers.setIfInBounds x v := by
  obtain ⟨pair, -, hs⟩ := step_of_next cfg input hnext
  have hrun := Effect.readTimer_run input pair cfg
    (p := ⟨m.advance, Effect.traced cfg pair⟩) x hshown
  have hset := Effect.setRegister_run (p := ⟨m.advance, Effect.traced cfg pair⟩) v hx
  rw [hs, hrun, Effect.finish_run, hset]
  exact ⟨rfl, rfl⟩

/-- A machine keeps the registers that it was created with. -/
theorem Reachable.registers_size {admits : Machine → Input → Prop} (h : Reachable cfg admits m) :
    m.registers.size = cfg.registerCount.toNat := by
  induction h with
  | create now hcreate =>
      rw [eq_initial_of_create hcreate]
      exact Array.size_replicate
  | @load m image _ ih =>
      have hsame : (m.load cfg image).machine.registers = m.registers :=
        load_sameBut cfg image m .registers (by decide)
      rw [hsame]
      exact ih
  | step input _ _ ih => exact (registers_size_stable _).step cfg input ih
  | reset now _ _ => exact Array.size_replicate

/-- All registers hold bytes, as long as the delay timer shows a byte whenever it is read. -/
theorem Reachable.registers_fit (h : Reachable {} (ShowsByte {}) m) :
    ∀ v ∈ m.registers, Byte.Fits v :=
  h.valid_of_showsByte.values

/-- **A read of the delay timer is a byte if the clock allows it.** In every run and on any clock
    whose ticks can be counted, the read succeeds and leaves in the register the value that the
    timer was set to, less the ticks since then, or zero. That is never negative. It is a byte
    exactly if the clock has not gone back by more ticks than the value was short of 255. -/
theorem timer_read_exact {admits : Machine → Input → Prop} {k : Int} (h : Reachable cfg admits m)
    (hx : x.val < cfg.registerCount) (hnext : m.next? cfg = some (.readTimer x))
    (hticks : ticksBetween cfg.timerFrequency m.timer.setTime input.now = .ok k) :
    ∃ v : Int, (m.step cfg input).result = .ok true ∧
      (m.step cfg input).machine.registers = m.registers.setIfInBounds x v ∧
      (m.step cfg input).machine.registers[x.val]? = some v ∧
      v = max 0 (m.timer.value.toNat - k) ∧ 0 ≤ v ∧
      (v ≤ 255 ↔ m.timer.value.toNat - 255 ≤ k) := by
  have hlt : x.val < m.registers.size := by
    rw [h.registers_size]
    omega
  obtain ⟨hresult, hregisters⟩ := step_readTimer hlt hnext (DelayTimer.read_of_ticks hticks)
  refine ⟨_, hresult, hregisters, ?_, rfl, Int.le_max_left .., by omega⟩
  rw [hregisters, Array.getElem?_setIfInBounds_self_of_lt hlt]

/-- The program `F107` on a machine that was created at the hundredth second, by a clock that has
    gone back by four seconds since: it reads 240 from a timer at rest. -/
theorem timer_read_exact_four_seconds :
    let m := ((initial {} 100.0).load {} #[0xF1, 0x07]).machine
    let input : Input := ⟨fun _ => false, 96.0, 0⟩
    (m.step {} input).result = .ok true ∧ (m.step {} input).machine.registers[1]? = some 240 := by
  intro m input
  have hloaded : Reachable {} (Ticking {}) m := reachable_loaded _ 100.0 _
  have htimer : m.timer = DelayTimer.reset 100.0 := rfl
  have hticks : ticksBetween ({} : Config).timerFrequency m.timer.setTime input.now
      = .ok (-240) := by
    rw [htimer]
    show ticksBetween 60 100.0 96.0 = .ok (-240)
    rfl
  have hfits : (#[0xF1, 0x07] : Array Byte).size ≤ 3584 := by decide
  have hd : Instruction.decode 0xF1 0x07 = some (.readTimer 1) := by decide
  have hnext : m.next? {} = some (.readTimer 1) := (next_loaded 100.0 hfits rfl rfl).trans hd
  obtain ⟨v, hresult, -, hread, hv, -⟩ := timer_read_exact hloaded (by decide) hnext hticks
  have hvalue : v = 240 := by
    rw [hv, htimer]
    rfl
  exact ⟨hresult, hread.trans (congrArg some hvalue)⟩

/-- If the clock has gone back by ten seconds, the ticks can be counted as before, and the same
    program reads 600, which is no byte. -/
theorem timer_read_overflows :
    let m := ((initial {} 100.0).load {} #[0xF1, 0x07]).machine
    let input : Input := ⟨fun _ => false, 90.0, 0⟩
    Reachable {} (Ticking {}) m ∧ Ticking {} m input ∧ m.next? {} = some (.readTimer 1) ∧
      (m.step {} input).machine.registers[1]? = some 600 ∧ ¬ Byte.Fits 600 := by
  intro m input
  have hloaded : Reachable {} (Ticking {}) m := reachable_loaded _ 100.0 _
  have hlt : (1 : Nibble).val < m.registers.size := by
    rw [hloaded.registers_size]
    decide
  have htimer : m.timer = DelayTimer.reset 100.0 := rfl
  have hticks : ticksBetween ({} : Config).timerFrequency m.timer.setTime input.now
      = .ok (-600) := by
    rw [htimer]
    show ticksBetween 60 100.0 90.0 = .ok (-600)
    rfl
  have hshown : m.delay {} input.now = .ok 600 := DelayTimer.read_of_ticks hticks
  have hfits : (#[0xF1, 0x07] : Array Byte).size ≤ 3584 := by decide
  have hd : Instruction.decode 0xF1 0x07 = some (.readTimer 1) := by decide
  have hnext : m.next? {} = some (.readTimer 1) := (next_loaded 100.0 hfits rfl rfl).trans hd
  obtain ⟨-, hregisters⟩ := step_readTimer hlt hnext hshown
  refine ⟨hloaded, fun _ _ => ⟨-600, hticks⟩, hnext, ?_, by decide⟩
  rw [hregisters]
  exact Array.getElem?_setIfInBounds_self_of_lt hlt

end Chip8.Machine
