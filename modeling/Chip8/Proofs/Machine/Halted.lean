import Chip8.Machine.Run
import Chip8.Proofs.Machine.Trap

/-!
# What a trap leaves behind

A trap names the place and the two bytes of its instruction, and it leaves the machine as it was
but for the program counter and the flag that it is halted. A halted machine stays exactly as it
is until it is reset, however many steps it is asked for and whatever the host offers to them
(`Machine.outcomes_of_halted`).
-/

namespace Chip8

namespace Machine

variable (cfg : Config)

/-- The byte at an address stands in the cell with the address's number, wrapped. -/
theorem byteAt?_eq_some {m : Machine} {address : Int} {b : Byte}
    (h : m.byteAt? cfg address = some b) :
    Cells.get? m.memory (address.fmod cfg.memorySize) = some b := by
  rw [byteAt?, Fault.modulo] at h
  split at h
  · cases h
  · exact h

/-- A fetched pair stands at the program counter. -/
theorem cells_of_fetched {m : Machine} {pair : Fetched} (h : m.fetched? cfg = some pair) :
    pair.address = m.counter ∧
      Cells.get? m.memory (m.counter.fmod cfg.memorySize) = some pair.opcode ∧
      Cells.get? m.memory ((m.counter + 1).fmod cfg.memorySize) = some pair.argument := by
  simp only [fetched?, Option.bind_eq_bind, Option.bind_eq_some_iff] at h
  obtain ⟨opcode, ho, argument, ha, h⟩ := h
  cases h
  exact ⟨rfl, byteAt?_eq_some cfg ho, byteAt?_eq_some cfg ha⟩

/-- Steps of a halted machine do nothing at all. -/
theorem outcomes_of_halted {m : Machine} (h : m.halted = true) (inputs : List Input) :
    m.outcomes cfg inputs = inputs.map fun _ => ⟨.ok false, m, #[]⟩ := by
  induction inputs with
  | nil => rfl
  | cons input inputs ih =>
      rw [outcomes, step_of_halted cfg input h, List.map_cons]
      exact congrArg _ ih

end Machine

/-- What is reported before a pair is executed is nothing but log messages. -/
theorem Effect.logged_of_mem_traced {cfg : Config} {pair : Fetched} {e : Event}
    (h : e ∈ Effect.traced cfg pair) : ∃ msg, e = .logged msg := by
  rw [Effect.traced] at h
  split at h
  · exact ⟨_, Array.mem_singleton.1 h⟩
  · cases Array.not_mem_empty e h

namespace Machine

/-- A step that traps names the place and the bytes of its instruction, and does nothing but move
    the program counter, halt the machine and report. From then on no step does anything, until a
    reset. -/
theorem step_trap_final {cfg : Config} {m : Machine} {input : Input} {t : Trap}
    (hcounter : 0 ≤ m.counter ∧ m.counter < 4096)
    (h : (m.step cfg input).result = .error (.trap t)) :
    let out := m.step cfg input
    (t.address = m.counter ∧ ∃ opcode argument : Byte,
      Cells.get? m.memory (m.counter.fmod cfg.memorySize) = some opcode ∧
      Cells.get? m.memory ((m.counter + 1).fmod cfg.memorySize) = some argument ∧
      t.opcode = opcode.toNat ∧ t.argument = argument.toNat) ∧
    out.machine = { m with counter := (m.counter + 2) % 4096, halted := true } ∧
    (∀ e ∈ out.events, ∃ msg, e = .logged msg) ∧
    (∀ inputs : List Input,
      out.machine.outcomes cfg inputs = inputs.map fun _ => ⟨.ok false, out.machine, #[]⟩) ∧
    ∀ now, (out.machine.reset cfg now).halted = false := by
  obtain ⟨kind, hkind⟩ : ∃ kind, m.trap? cfg = some kind :=
    ⟨t.kind, (step_traps_iff cfg input m t.kind).1 ⟨t, h, rfl⟩⟩
  obtain ⟨pair, hpair, hs⟩ := step_of_trap cfg input hkind
  obtain ⟨haddress, hopcode, hargument⟩ := cells_of_fetched cfg hpair
  rw [hs] at h ⊢
  cases h
  refine ⟨⟨?_, pair.opcode, pair.argument, hopcode, hargument, rfl, rfl⟩, rfl, ?_,
    outcomes_of_halted cfg rfl, fun _ => rfl⟩
  · show Address.wrap pair.address = m.counter
    rw [haddress]
    exact Int.emod_eq_of_lt hcounter.1 hcounter.2
  · intro e he
    rcases Array.mem_push.1 he with he | rfl
    · exact Effect.logged_of_mem_traced he
    · exact ⟨_, rfl⟩

/-- A return with an empty stack whose two bytes are the last and the first of memory. -/
theorem step_trap_final_last_cell :
    let m := { initial {} 0.0 with
      memory := (Array.replicate 4096 0).setIfInBounds 0 0xEE, counter := 4095 }
    let out := m.step {} ⟨fun _ => true, 0.0, 7⟩
    out.result = .error (.trap ⟨.stackUnderflow, 4095, 0x00, 0xEE⟩) ∧
      out.machine = { m with counter := (m.counter + 2) % 4096, halted := true } ∧
      (m.counter + 2) % 4096 = 1 ∧
      ∀ inputs : List Input,
        out.machine.outcomes {} inputs = inputs.map fun _ => ⟨.ok false, out.machine, #[]⟩ := by
  intro m out
  have hp : m.fetched? {} = some ⟨4095, 0x00, 0xEE⟩ := by decide +kernel
  have ht : m.trap? {} = some .stackUnderflow := by
    rw [trap?_of_fetched {} rfl hp]
    rfl
  have hresult : out.result = .error (.trap ⟨.stackUnderflow, 4095, 0x00, 0xEE⟩) := by
    obtain ⟨pair, hpair, hs⟩ := step_of_trap {} ⟨fun _ => true, 0.0, 7⟩ ht
    cases hp.symm.trans hpair
    exact congrArg Outcome.result hs
  obtain ⟨-, hmachine, -, hlater, -⟩ := step_trap_final (by decide) hresult
  exact ⟨hresult, hmachine, by decide, hlater⟩

end Machine

end Chip8
