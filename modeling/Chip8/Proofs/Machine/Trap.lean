import Chip8.Proofs.Machine.Step

/-!
# When a step traps

`Machine.trap?` reads off a machine which trap its next step causes, if any: a byte pair that is
no instruction, a call with a full stack, a return with an empty one. The step then does nothing
but move the program counter, halt the machine and report the trap (`Machine.step_of_trap`), and
on every other machine no step traps (`Machine.step_ne_trap`).
-/

namespace Chip8

/-- An operation stopped at a trap of some kind. -/
def Outcome.Traps {α : Type} (out : Outcome α) (kind : TrapKind) : Prop :=
  ∃ t, out.result = .error (.trap t) ∧ t.kind = kind

/-- The trap that an instruction causes with so many pending calls, if it causes one. -/
def Instruction.trap? (cfg : Config) (depth : Nat) : Instruction → Option TrapKind
  | .call _ => if cfg.stackSize ≤ depth then some .stackOverflow else none
  | .ret => if depth = 0 then some .stackUnderflow else none
  | _ => none

/-- A call traps where the stack is full. -/
theorem Instruction.trap?_call (cfg : Config) (depth : Nat) (target : Address) :
    (call target).trap? cfg depth = if cfg.stackSize ≤ depth then some .stackOverflow else none :=
  rfl

/-- A return traps where nothing is pending. -/
theorem Instruction.trap?_ret (cfg : Config) (depth : Nat) :
    ret.trap? cfg depth = if depth = 0 then some .stackUnderflow else none := rfl

/-- Calls trap on a full stack and returns on an empty one, and nothing else traps. -/
theorem Instruction.trap?_eq_some_iff {cfg : Config} {depth : Nat} {i : Instruction}
    {kind : TrapKind} :
    i.trap? cfg depth = some kind ↔
      (kind = .stackOverflow ∧ (∃ target, i = .call target) ∧ cfg.stackSize ≤ depth) ∨
        (kind = .stackUnderflow ∧ i = .ret ∧ depth = 0) := by
  constructor
  · intro h
    cases i with
    | call target =>
        rw [trap?_call] at h
        split at h
        · rename_i hfull
          cases h
          exact Or.inl ⟨rfl, ⟨target, rfl⟩, hfull⟩
        · cases h
    | ret =>
        rw [trap?_ret] at h
        split at h
        · rename_i hempty
          cases h
          exact Or.inr ⟨rfl, rfl, hempty⟩
        · cases h
    | _ => cases h
  · rintro (⟨rfl, ⟨target, rfl⟩, hfull⟩ | ⟨rfl, rfl, hempty⟩)
    · rw [trap?_call, if_pos hfull]
    · rw [trap?_ret, if_pos hempty]

namespace Effect

variable (cfg : Config) (input : Input) (pair : Fetched)

/-- A trap halts the machine, is reported and stops everything else. -/
theorem trap_run {α : Type} (kind : TrapKind) (p : Progress) :
    (trap pair kind : Effect α).run p = .error (.trap (pair.trap kind))
      ⟨{ p.machine with halted := true },
        p.events.push (.logged (.trapped (pair.trap kind)))⟩ := rfl

/-- An effect after which the instruction is done answers so, unless it fails. -/
theorem finish_run (eff : Effect Unit) (p : Progress) :
    (finish eff).run p =
      match eff.run p with
      | .ok _ p' => .ok true p'
      | .error f p' => .error f p' := by
  rw [finish, EStateM.run_bind]
  cases eff.run p <;> rfl

/-- A call on a full stack does nothing but trap. -/
theorem call_run_full {p : Progress} (target : Int) (h : cfg.stackSize ≤ p.machine.depth) :
    (call cfg pair target).run p = (trap pair .stackOverflow).run p := by
  simp only [call, machine, EStateM.run_bind, EStateM.run_get, EStateM.run_pure, if_pos h,
    trap_run]

/-- A call with room on the stack pushes the program counter. -/
theorem call_run_room {p : Progress} (target : Int) (h : ¬ cfg.stackSize ≤ p.machine.depth)
    (hs : p.machine.depth < p.machine.stack.size) :
    (call cfg pair target).run p = .ok ()
      ⟨{ p.machine with
          stack := p.machine.stack.setIfInBounds p.machine.depth p.machine.counter
          depth := p.machine.depth + 1
          counter := target }, p.events⟩ := by
  simp only [call, machine, EStateM.run_bind, EStateM.run_get, EStateM.run_pure, if_neg h,
    if_pos hs]
  rfl

/-- A call for which the stack has no cell fails without a trap. -/
theorem call_run_lost {p : Progress} (target : Int) (h : ¬ cfg.stackSize ≤ p.machine.depth)
    (hs : ¬ p.machine.depth < p.machine.stack.size) :
    (call cfg pair target).run p = .error .outOfRange p := by
  simp only [call, machine, EStateM.run_bind, EStateM.run_get, EStateM.run_pure, if_neg h,
    if_neg hs]
  rfl

/-- A return on an empty stack does nothing but trap. -/
theorem ret_run_empty {p : Progress} (h : p.machine.depth = 0) :
    (ret pair).run p = (trap pair .stackUnderflow).run p := by
  simp only [ret, machine, EStateM.run_bind, EStateM.run_get, EStateM.run_pure, h]

/-- A return pops the program counter, if the stack has the cell. -/
theorem ret_run_pending {p : Progress} {depth : Nat} (h : p.machine.depth = depth + 1) :
    (ret pair).run p =
      match p.machine.stack[depth]? with
      | some a => .ok () ⟨{ p.machine with depth := depth, counter := a }, p.events⟩
      | none => .error .outOfRange ⟨{ p.machine with depth := depth }, p.events⟩ := by
  simp only [ret, machine, EStateM.run_bind, EStateM.run_get, EStateM.run_pure, h, change,
    EStateM.run_modify]
  cases p.machine.stack[depth]? <;> rfl

/-- An instruction that traps does nothing else. -/
theorem execute_of_trap {p : Progress} {i : Instruction} {kind : TrapKind}
    (h : i.trap? cfg p.machine.depth = some kind) :
    (execute cfg input pair i).run p = (trap pair kind).run p := by
  rcases Instruction.trap?_eq_some_iff.1 h with ⟨rfl, ⟨target, rfl⟩, hfull⟩ | ⟨rfl, rfl, hempty⟩
  · show (finish (call cfg pair target)).run p = _
    rw [finish_run, call_run_full cfg pair _ hfull]
    rfl
  · show (finish (ret pair)).run p = _
    rw [finish_run, ret_run_empty pair hempty]
    rfl

/-- An instruction that is not to trap may fail, but it does not trap. -/
theorem execute_ne_trap {p : Progress} {i : Instruction}
    (h : i.trap? cfg p.machine.depth = none) (t : Trap) (p' : Progress) :
    (execute cfg input pair i).run p ≠ .error (.trap t) p' := by
  intro hr
  -- only calls and returns need a look at the stack
  have hlinks : i.links = true := by
    have hi := execute_confined cfg input pair i p.machine p (Machine.SameBut.refl _ _)
    rw [hr] at hi
    exact hi.1 trivial
  cases i with
  | call target =>
      rw [Instruction.trap?_call] at h
      split at h
      · cases h
      · rename_i hroom
        replace hr : (finish (call cfg pair target)).run p = _ := hr
        rw [finish_run] at hr
        by_cases hs : p.machine.depth < p.machine.stack.size
        · rw [call_run_room cfg pair _ hroom hs] at hr
          cases hr
        · rw [call_run_lost cfg pair _ hroom hs] at hr
          cases hr
  | ret =>
      rw [Instruction.trap?_ret] at h
      split at h
      · cases h
      · rename_i hne
        obtain ⟨depth, hd⟩ := Nat.exists_eq_succ_of_ne_zero hne
        replace hr : (finish (ret pair)).run p = _ := hr
        rw [finish_run, ret_run_pending pair hd] at hr
        cases hs : p.machine.stack[depth]? with
        | none =>
            rw [hs] at hr
            cases hr
        | some a =>
            rw [hs] at hr
            cases hr
  | _ => cases hlinks

end Effect

namespace Machine

variable (cfg : Config) (input : Input)

/-- The trap that the next step causes, if it causes one. -/
def trap? (m : Machine) : Option TrapKind :=
  if m.halted then none
  else
    (m.fetched? cfg).bind fun pair =>
      match Instruction.decode pair.opcode pair.argument with
      | none => some .illegal
      | some i => i.trap? cfg m.depth

/-- A machine that has moved on and was halted by a trap. -/
def fallen (m : Machine) : Machine := { m.advance with halted := true }

theorem trap?_of_halted {m : Machine} (h : m.halted = true) : m.trap? cfg = none := by
  rw [trap?, h, if_pos rfl]

theorem trap?_of_not_fetched {m : Machine} (h : m.fetched? cfg = none) :
    m.trap? cfg = none := by
  rw [trap?, h]
  exact ite_self _

/-- A pair traps if it is no instruction or if its instruction traps. -/
theorem trap?_of_fetched {m : Machine} {pair : Fetched} (hh : m.halted = false)
    (hp : m.fetched? cfg = some pair) :
    m.trap? cfg =
      match Instruction.decode pair.opcode pair.argument with
      | none => some .illegal
      | some i => i.trap? cfg m.depth := by
  rw [trap?, hh, hp]
  rfl

/-- Whether an instruction ahead traps depends on the number of pending calls. -/
theorem trap?_of_next {m : Machine} {i : Instruction} (h : m.next? cfg = some i) :
    m.trap? cfg = i.trap? cfg m.depth := by
  obtain ⟨pair, hh, hp, hd⟩ := fetched_of_next cfg h
  rw [trap?_of_fetched cfg hh hp, hd]

/-- Where no instruction comes next, the only trap is that of a pair that is none. -/
theorem trap?_of_not_next {m : Machine} {kind : TrapKind} (h : m.next? cfg = none)
    (hk : m.trap? cfg = some kind) : kind = .illegal := by
  rcases m.ahead cfg with hh | ⟨_, hp⟩ | ⟨pair, hh, hp, hd⟩ | ⟨pair, i, hh, hp, hd⟩
  · rw [trap?_of_halted cfg hh] at hk
    cases hk
  · rw [trap?_of_not_fetched cfg hp] at hk
    cases hk
  · rw [trap?_of_fetched cfg hh hp, hd] at hk
    cases hk
    rfl
  · rw [next?_of_fetched cfg hh hp, hd] at h
    cases h

/-- Which trap a byte pair causes, by the instruction it stands for. -/
theorem trap?_eq_some_iff {m : Machine} {pair : Fetched} {kind : TrapKind}
    (hh : m.halted = false) (hp : m.fetched? cfg = some pair) :
    m.trap? cfg = some kind ↔
      (kind = .illegal ∧ Instruction.decode pair.opcode pair.argument = none) ∨
      (kind = .stackOverflow ∧
        (∃ target, Instruction.decode pair.opcode pair.argument = some (.call target)) ∧
        cfg.stackSize ≤ m.depth) ∨
      (kind = .stackUnderflow ∧ Instruction.decode pair.opcode pair.argument = some .ret ∧
        m.depth = 0) := by
  rw [trap?_of_fetched cfg hh hp]
  cases hd : Instruction.decode pair.opcode pair.argument with
  | none => simp [eq_comm]
  | some i =>
      show i.trap? cfg m.depth = some kind ↔ _
      rw [Instruction.trap?_eq_some_iff]
      simp

/-- A step that traps moves the program counter, halts the machine and reports the trap. -/
theorem step_of_trap {m : Machine} {kind : TrapKind} (h : m.trap? cfg = some kind) :
    ∃ pair, m.fetched? cfg = some pair ∧
      m.step cfg input = ⟨.error (.trap (pair.trap kind)), m.fallen,
        (Effect.traced cfg pair).push (.logged (.trapped (pair.trap kind)))⟩ := by
  rcases m.ahead cfg with hh | ⟨_, hp⟩ | ⟨pair, hh, hp, hd⟩ | ⟨pair, i, hh, hp, hd⟩
  · rw [trap?_of_halted cfg hh] at h
    cases h
  · rw [trap?_of_not_fetched cfg hp] at h
    cases h
  · rw [trap?_of_fetched cfg hh hp, hd] at h
    cases h
    refine ⟨pair, hp, ?_⟩
    rw [step_of_fetched cfg input hh hp, Effect.executePair, hd]
    rfl
  · rw [trap?_of_fetched cfg hh hp, hd] at h
    refine ⟨pair, hp, ?_⟩
    rw [step_of_fetched cfg input hh hp, Effect.executePair, hd]
    dsimp only at h ⊢
    rw [Effect.execute_of_trap cfg input pair h]
    rfl

/-- A step without a trap ahead does not end with one. -/
theorem step_ne_trap {m : Machine} (h : m.trap? cfg = none) (t : Trap) :
    (m.step cfg input).result ≠ .error (.trap t) := by
  rcases m.ahead cfg with hh | ⟨hh, hp⟩ | ⟨pair, hh, hp, hd⟩ | ⟨pair, i, hh, hp, hd⟩
  · rw [step_of_halted cfg input hh]
    intro ht
    cases ht
  · obtain ⟨f, hf, hs⟩ := step_of_not_fetched cfg input hh hp
    rw [hs]
    intro ht
    cases ht
    exact hf trivial
  · rw [trap?_of_fetched cfg hh hp, hd] at h
    cases h
  · rw [trap?_of_fetched cfg hh hp, hd] at h
    rw [step_of_fetched cfg input hh hp, Effect.executePair, hd]
    dsimp only at h ⊢
    cases hr : (Effect.execute cfg input pair i).run ⟨m.advance, Effect.traced cfg pair⟩ with
    | ok done p =>
        intro ht
        cases done <;> cases ht
    | error f p =>
        intro ht
        cases ht
        exact Effect.execute_ne_trap cfg input pair h t p hr

/-- A step traps in some way exactly if the machine says so. -/
theorem step_traps_iff (m : Machine) (kind : TrapKind) :
    (m.step cfg input).Traps kind ↔ m.trap? cfg = some kind := by
  constructor
  · rintro ⟨t, ht, rfl⟩
    cases hk : m.trap? cfg with
    | none => exact absurd ht (step_ne_trap cfg input hk t)
    | some kind =>
        obtain ⟨pair, _, hs⟩ := step_of_trap cfg input hk
        rw [hs] at ht
        cases ht
        rfl
  · intro hk
    obtain ⟨pair, _, hs⟩ := step_of_trap cfg input hk
    rw [hs]
    exact ⟨_, rfl, rfl⟩

end Machine

end Chip8
