import Chip8.Machine.Step
import Chip8.Proofs.Machine.Frame

/-!
# The ways a step can go

`Machine.fetched?` is the byte pair at the program counter, `Machine.next?` the instruction it
stands for and `Machine.retired?` that instruction if the step executes it to the end. A step is
one of four things: nothing at all on a halted machine (`Machine.step_of_halted`), a fault that is
no trap where there is no byte to fetch (`Machine.step_of_not_fetched`), a trap where the pair
stands for no instruction, and otherwise the execution of the instruction on the machine that has
moved on (`Machine.step_of_next`). Every fact about steps starts from these four. What a step
changes at most is in `Machine.step_sameBut_of_next` and `Machine.step_same`.
-/

namespace Chip8

namespace Machine

variable (cfg : Config)

/-- The byte at an address, which wraps at the size of memory. -/
def byteAt? (m : Machine) (address : Int) : Option Byte :=
  (Fault.modulo address cfg.memorySize).toOption.bind (Cells.get? m.memory)

/-- The byte pair at the program counter. -/
def fetched? (m : Machine) : Option Fetched := do
  let opcode ← m.byteAt? cfg m.counter
  let argument ← m.byteAt? cfg (m.counter + 1)
  return ⟨m.counter, opcode, argument⟩

/-- What is fetched depends on memory and on the program counter. -/
theorem fetched?_congr {m m' : Machine} (hmemory : m'.memory = m.memory)
    (hcounter : m'.counter = m.counter) : m'.fetched? cfg = m.fetched? cfg := by
  simp only [fetched?, byteAt?, hmemory, hcounter]

/-- The instruction that the next step carries out, unless the machine is halted. -/
def next? (m : Machine) : Option Instruction :=
  if m.halted then none
  else (m.fetched? cfg).bind fun pair => Instruction.decode pair.opcode pair.argument

/-- The instruction that a step executes to the end, if it does. -/
def retired? (input : Input) (m : Machine) : Option Instruction :=
  match (m.step cfg input).result with
  | .ok true => m.next? cfg
  | _ => none

/-- The machine with the program counter behind the byte pair. -/
def advance (m : Machine) : Machine := { m with counter := Address.wrap (m.counter + 2) }

/-- Moving on changes the program counter only. -/
theorem advance_same (m : Machine) {part : Part} (h : part ≠ .counter) : part.Same m m.advance := by
  cases part <;> first | rfl | exact absurd rfl h

/-- What is ahead of a machine: nothing, a place without bytes, bytes that are no instruction, or
    an instruction. -/
theorem ahead (m : Machine) :
    m.halted = true ∨
      (m.halted = false ∧ m.fetched? cfg = none) ∨
      (∃ pair, m.halted = false ∧ m.fetched? cfg = some pair ∧
        Instruction.decode pair.opcode pair.argument = none) ∨
      ∃ pair i, m.halted = false ∧ m.fetched? cfg = some pair ∧
        Instruction.decode pair.opcode pair.argument = some i := by
  cases hh : m.halted with
  | true => exact Or.inl rfl
  | false =>
      cases hp : m.fetched? cfg with
      | none => exact Or.inr (Or.inl ⟨rfl, rfl⟩)
      | some pair =>
          cases hd : Instruction.decode pair.opcode pair.argument with
          | none => exact Or.inr (Or.inr (Or.inl ⟨pair, rfl, rfl, hd⟩))
          | some i => exact Or.inr (Or.inr (Or.inr ⟨pair, i, rfl, rfl, hd⟩))

theorem next?_of_halted {m : Machine} (h : m.halted = true) : m.next? cfg = none := by
  rw [next?, h, if_pos rfl]

theorem next?_of_not_fetched {m : Machine} (h : m.fetched? cfg = none) :
    m.next? cfg = none := by
  rw [next?, h]
  exact ite_self _

/-- The instruction ahead is what the pair ahead decodes to. -/
theorem next?_of_fetched {m : Machine} {pair : Fetched} (hh : m.halted = false)
    (h : m.fetched? cfg = some pair) :
    m.next? cfg = Instruction.decode pair.opcode pair.argument := by
  rw [next?, hh, h]
  rfl

/-- An instruction that comes next was fetched by a machine that is not halted. -/
theorem fetched_of_next {m : Machine} {i : Instruction} (h : m.next? cfg = some i) :
    ∃ pair, m.halted = false ∧ m.fetched? cfg = some pair ∧
      Instruction.decode pair.opcode pair.argument = some i := by
  rcases m.ahead cfg with hh | ⟨_, hp⟩ | ⟨pair, hh, hp, hd⟩ | ⟨pair, i', hh, hp, hd⟩
  · rw [next?_of_halted cfg hh] at h
    cases h
  · rw [next?_of_not_fetched cfg hp] at h
    cases h
  · rw [next?_of_fetched cfg hh hp, hd] at h
    cases h
  · rw [next?_of_fetched cfg hh hp] at h
    exact ⟨pair, hh, hp, h⟩

/-- A step that is executed to the end has executed the instruction that was ahead. -/
theorem retired?_of_done {input : Input} {m : Machine} (h : (m.step cfg input).result = .ok true) :
    m.retired? cfg input = m.next? cfg := by
  rw [retired?, h]

theorem retired?_of_not_done {input : Input} {m : Machine}
    (h : (m.step cfg input).result ≠ .ok true) : m.retired? cfg input = none := by
  rw [retired?]
  split
  · rename_i hdone
    exact absurd hdone h
  · rfl

/-- An instruction that was executed to the end was ahead. -/
theorem next_of_retired {input : Input} {m : Machine} {i : Instruction}
    (h : m.retired? cfg input = some i) :
    (m.step cfg input).result = .ok true ∧ m.next? cfg = some i := by
  by_cases hdone : (m.step cfg input).result = .ok true
  · exact ⟨hdone, retired?_of_done cfg hdone ▸ h⟩
  · rw [retired?_of_not_done cfg hdone] at h
    cases h

end Machine

namespace Effect

variable (cfg : Config) (input : Input)

/-- What is reported before a byte pair is executed. -/
def traced (pair : Fetched) : Array Event :=
  if cfg.trace then #[.logged (.traced pair.address pair.opcode pair.argument)] else #[]

/-- What a step makes of an executed instruction: one that is done counts. -/
def settle : EStateM.Result Fault Progress Bool → Outcome Bool
  | .ok true p => ⟨.ok true, { p.machine with cycles := p.machine.cycles + 1 }, p.events⟩
  | .ok false p => ⟨.ok false, p.machine, p.events⟩
  | .error f p => ⟨.error f, p.machine, p.events⟩

/-- A byte that is there is fetched, and nothing else happens. -/
theorem fetch_of_byteAt {p : Progress} {address : Int} {b : Byte}
    (h : p.machine.byteAt? cfg address = some b) : (fetch cfg address).run p = .ok b p := by
  rw [Machine.byteAt?] at h
  cases hm : Fault.modulo address cfg.memorySize with
  | error f =>
      rw [hm] at h
      cases h
  | ok place =>
      rw [hm] at h
      have hget : Cells.get? p.machine.memory place = some b := h
      simp only [fetch, hm, hget, EStateM.run_bind, run_machine, run_ofExcept_ok]
      rfl

/-- Where no byte is, fetching fails without a trap. -/
theorem fetch_of_not_byteAt {p : Progress} {address : Int}
    (h : p.machine.byteAt? cfg address = none) :
    ∃ f, ¬ f.IsTrap ∧ (fetch cfg address).run p = .error f p := by
  rw [Machine.byteAt?] at h
  cases hm : Fault.modulo address cfg.memorySize with
  | error f =>
      refine ⟨f, Fault.modulo_not_isTrap hm, ?_⟩
      simp only [fetch, hm, EStateM.run_bind, run_ofExcept_error]
  | ok place =>
      rw [hm] at h
      have hget : Cells.get? p.machine.memory place = none := h
      refine ⟨.outOfRange, fun ht => ht, ?_⟩
      simp only [fetch, hm, hget, EStateM.run_bind, run_machine, run_ofExcept_ok]
      rfl

/-- Fetching a pair moves the program counter behind it. -/
theorem fetchPair_of_fetched {p : Progress} {pair : Fetched}
    (h : p.machine.fetched? cfg = some pair) :
    (fetchPair cfg).run p = .ok pair ⟨p.machine.advance, p.events⟩ := by
  simp only [Machine.fetched?, Option.bind_eq_bind, Option.bind_eq_some_iff] at h
  obtain ⟨opcode, ho, argument, ha, h⟩ := h
  cases h
  simp only [fetchPair, machine, EStateM.run_bind, EStateM.run_get, EStateM.run_pure,
    fetch_of_byteAt cfg ho, fetch_of_byteAt cfg ha]
  rfl

/-- Where there is no pair, fetching changes nothing. -/
theorem fetchPair_of_not_fetched {p : Progress} (h : p.machine.fetched? cfg = none) :
    ∃ f, ¬ f.IsTrap ∧ (fetchPair cfg).run p = .error f p := by
  simp only [Machine.fetched?, Option.bind_eq_bind, Option.bind_eq_none_iff] at h
  simp only [fetchPair, machine, EStateM.run_bind, EStateM.run_get, EStateM.run_pure]
  cases ho : p.machine.byteAt? cfg p.machine.counter with
  | none =>
      obtain ⟨f, hf, hr⟩ := fetch_of_not_byteAt cfg ho
      exact ⟨f, hf, by rw [hr]⟩
  | some opcode =>
      cases ha : p.machine.byteAt? cfg (p.machine.counter + 1) with
      | none =>
          obtain ⟨f, hf, hr⟩ := fetch_of_not_byteAt cfg ha
          exact ⟨f, hf, by rw [fetch_of_byteAt cfg ho]; dsimp only; rw [hr]⟩
      | some argument =>
          have hnone := h opcode ho argument ha
          cases hnone

/-- A record of the pair is all that tracing adds. -/
theorem trace_run (pair : Fetched) (m : Machine) :
    (trace cfg pair).run ⟨m, #[]⟩ = .ok () ⟨m, traced cfg pair⟩ := by
  rw [trace, traced]
  split <;> rfl

end Effect

namespace Machine

variable (cfg : Config) (input : Input)

/-- A halted machine does nothing in a step. -/
theorem step_of_halted {m : Machine} (h : m.halted = true) :
    m.step cfg input = ⟨.ok false, m, #[]⟩ := by
  simp only [step, Effect.step, Effect.outcome, Effect.machine, EStateM.run_bind,
    EStateM.run_get, EStateM.run_pure, h, if_true]

/-- A fault in fetching is the fault of the step. -/
theorem step_of_fetch_fault {m : Machine} {f : Fault} (hh : m.halted = false)
    (h : (Effect.fetchPair cfg).run ⟨m, #[]⟩ = .error f ⟨m, #[]⟩) :
    m.step cfg input = ⟨.error f, m, #[]⟩ := by
  simp [step, Effect.step, Effect.outcome, Effect.machine, hh, h]

/-- A step that cannot fetch its pair fails without a trap and changes nothing. -/
theorem step_of_not_fetched {m : Machine} (hh : m.halted = false) (h : m.fetched? cfg = none) :
    ∃ f, ¬ f.IsTrap ∧ m.step cfg input = ⟨.error f, m, #[]⟩ := by
  obtain ⟨f, hf, hr⟩ := Effect.fetchPair_of_not_fetched cfg (p := ⟨m, #[]⟩) h
  exact ⟨f, hf, step_of_fetch_fault cfg input hh hr⟩

/-- A step on a machine that can fetch executes the pair on the machine that has moved on. -/
theorem step_of_fetched {m : Machine} {pair : Fetched} (hh : m.halted = false)
    (h : m.fetched? cfg = some pair) :
    m.step cfg input = Effect.settle
      ((Effect.executePair cfg input pair).run ⟨m.advance, Effect.traced cfg pair⟩) := by
  have hr := Effect.fetchPair_of_fetched cfg (p := ⟨m, #[]⟩) h
  simp only [step, Effect.step, Effect.outcome, Effect.machine, EStateM.run_bind,
    EStateM.run_get, EStateM.run_pure, hh, Bool.false_eq_true, if_false, hr,
    Effect.trace_run]
  cases he : (Effect.executePair cfg input pair).run ⟨m.advance, Effect.traced cfg pair⟩ with
  | error f p => rfl
  | ok done p => cases done <;> rfl

/-- A step carries out the instruction ahead, with the program counter behind it. -/
theorem step_of_next {m : Machine} {i : Instruction} (h : m.next? cfg = some i) :
    ∃ pair, m.fetched? cfg = some pair ∧
      m.step cfg input = Effect.settle
        ((Effect.execute cfg input pair i).run ⟨m.advance, Effect.traced cfg pair⟩) := by
  obtain ⟨pair, hh, hp, hd⟩ := fetched_of_next cfg h
  refine ⟨pair, hp, ?_⟩
  rw [step_of_fetched cfg input hh hp, Effect.executePair, hd]

/-- A step without an instruction: the machine stays, or it moves on and is halted. -/
theorem step_of_not_next {m : Machine} (h : m.next? cfg = none) :
    (m.step cfg input).result ≠ .ok true ∧
      m.SameBut [.counter, .halted] (m.step cfg input).machine := by
  rcases m.ahead cfg with hh | ⟨hh, hp⟩ | ⟨pair, hh, hp, hd⟩ | ⟨pair, i, hh, hp, hd⟩
  · rw [step_of_halted cfg input hh]
    exact ⟨fun hr => (nomatch hr), SameBut.refl _ m⟩
  · obtain ⟨f, _, hs⟩ := step_of_not_fetched cfg input hh hp
    rw [hs]
    exact ⟨fun hr => (nomatch hr), SameBut.refl _ m⟩
  · rw [step_of_fetched cfg input hh hp, Effect.executePair, hd]
    refine ⟨fun hr => (nomatch hr), fun part hpart => ?_⟩
    cases part <;> first | rfl | exact absurd (by decide) hpart
  · rw [next?_of_fetched cfg hh hp, hd] at h
    cases h

/-- What a step may change that carries out an instruction: after moving on, the footprint of the
    instruction and the number of instructions. -/
theorem step_sameBut_of_next {m : Machine} {i : Instruction} (h : m.next? cfg = some i) :
    m.advance.SameBut (.cycles :: i.footprint) (m.step cfg input).machine := by
  intro part hpart
  simp only [List.mem_cons, not_or] at hpart
  obtain ⟨hcycles, hfoot⟩ := hpart
  obtain ⟨pair, -, hs⟩ := step_of_next cfg input h
  rw [hs]
  have hi := Effect.execute_confined cfg input pair i m.advance
    ⟨m.advance, Effect.traced cfg pair⟩ (SameBut.refl _ _)
  cases hr : (Effect.execute cfg input pair i).run ⟨m.advance, Effect.traced cfg pair⟩ with
  | error f p =>
      rw [hr] at hi
      exact hi.2 part hfoot
  | ok done p =>
      rw [hr] at hi
      have hsame := hi.2 part hfoot
      -- an instruction that is done counts, which no other part notices
      cases done with
      | false => exact hsame
      | true => cases part <;> first | exact hsame | exact absurd rfl hcycles

/-- What a step may change: the footprint of its instruction, the program counter, the flag of a
    halted machine and the number of instructions. -/
theorem step_sameBut (m : Machine) :
    m.SameBut (.counter :: .halted :: .cycles :: ((m.next? cfg).elim [] Instruction.footprint))
      (m.step cfg input).machine := by
  cases hn : m.next? cfg with
  | none =>
      intro part hpart
      refine (step_of_not_next cfg input hn).2 part fun hmem => hpart ?_
      simp only [List.mem_cons, List.not_mem_nil, or_false] at hmem ⊢
      rcases hmem with rfl | rfl
      · exact Or.inl rfl
      · exact Or.inr (Or.inl rfl)
  | some i =>
      intro part hpart
      simp only [Option.elim, List.mem_cons, not_or] at hpart
      obtain ⟨hcounter, -, hcycles, hfoot⟩ := hpart
      refine (advance_same m hcounter).trans (step_sameBut_of_next cfg input hn part ?_)
      simp only [List.mem_cons, not_or]
      exact ⟨hcycles, hfoot⟩

/-- A part that the instruction does not change is the same after the step. -/
theorem step_same (m : Machine) (part : Part) (hpart : part ∉ [.counter, .halted, .cycles])
    (h : ∀ i, m.next? cfg = some i → part ∉ i.footprint) :
    part.Same m (m.step cfg input).machine := by
  refine step_sameBut cfg input m part fun hmem => ?_
  cases hn : m.next? cfg with
  | none =>
      rw [hn] at hmem
      exact hpart hmem
  | some i =>
      rw [hn] at hmem
      rcases List.mem_append.1 (show part ∈ [.counter, .halted, .cycles] ++ i.footprint from hmem)
        with hmem | hmem
      · exact hpart hmem
      · exact h i hn hmem

end Machine

end Chip8
