import Chip8.Proofs.Machine.Calls
import Chip8.Proofs.Machine.EarlyStop
import Chip8.Proofs.Machine.Stores
import Chip8.Proofs.Machine.Telling

/-!
# What an executed instruction changes

`Instruction.footprint` lists the parts of the machine that an instruction may change. Within
memory, the registers and the stack it changes a few cells only: `Instruction.cells` and
`Instruction.results` say which, and a call changes the one cell of its return address.
`Instruction.Tells` says what an instruction does to the host.

A step that executes an instruction to the end changes nothing else and does nothing else
(`Machine.step_framed`), for any machine and any host. The parts come from
`Effect.execute_confined`, the cells of memory from `Machine.step_memory`, and that all but four
instructions are `Effect.Quiet` from `Effect.execute_told`. What is new here is one pass over the
instructions that have registers in their footprint.
-/

namespace Chip8

/-- Whether an operator sets the flag register. -/
def Operator.setsFlag : Operator → Bool
  | .add => true
  | .sub => true
  | .subFrom => true
  | _ => false

/-- An operation for which there is a flag sets it. -/
theorem Operator.setsFlag_of_flag? {op : Operator} {a b f : Int} (h : op.flag? a b = some f) :
    op.setsFlag = true := by
  cases op <;> first | rfl | cases h

namespace Instruction

/-- The cells of memory that an instruction may change. -/
def cells (index : Int) : Instruction → List Int
  | .storeDigits _ => (List.range 3).map fun (k : Nat) => (index + k) % 4096
  | .storeRegisters x => (List.range (x + 1)).map fun (k : Nat) => (index + k) % 4096
  | _ => []

/-- The registers that an instruction may change. -/
def results : Instruction → List Nat
  | .load x _ => [x.val]
  | .add x _ => [x.val]
  | .combine op x _ => x.val :: if op.setsFlag then [flagRegister.val] else []
  | .shift _ x => [x.val, flagRegister.val]
  | .random x _ => [x.val]
  | .draw .. => [flagRegister.val]
  | .readTimer x => [x.val]
  | .awaitKey x => [x.val]
  | .loadRegisters x => List.range (x + 1)
  | _ => []

/-- What an instruction that was executed to the end has done to the host. -/
def Tells (input : Input) (m : Machine) (events : Array Event) : Instruction → Prop
  | .random .. => events = #[.drew 0 Byte.limit]
  | .skipKey _ x => ∃ v, m.registers[x.val]? = some v ∧ events = #[.polled (v % 16)]
  | .awaitKey _ => ∃ key, input.Least {} key ∧ events = Event.polls 0 (key + 1)
  | .beep _ => events = #[.beeped]
  | _ => events = #[]

/-- Of all instructions, only calls and returns may halt the machine. -/
theorem halted_not_mem_footprint {i : Instruction} (h : i.links = false) :
    .halted ∉ i.footprint := by
  cases i with
  | call target => cases h
  | ret => cases h
  | _ => simp [footprint]

/-- An instruction writes to no other cell of memory. -/
theorem mem_cells_of_writesTo {i : Instruction} {m : Machine} {cell : Nat}
    (h : i.WritesTo m cell) : (cell : Int) ∈ i.cells m.index := by
  cases i with
  | storeDigits x =>
      obtain ⟨v, -, -, k, hk, heq⟩ := h
      exact List.mem_map.2 ⟨k, List.mem_range.2 hk, heq.symm⟩
  | storeRegisters x =>
      obtain ⟨k, hk, -, heq⟩ := h
      exact List.mem_map.2 ⟨k, List.mem_range.2 (Nat.lt_succ_iff.2 hk), heq.symm⟩
  | _ => exact h.elim

end Instruction

namespace Effect

variable {α β : Type} (cfg : Config) (input : Input) (pair : Fetched)

/-! ## Registers -/

section Registers

variable {y : Nat} {content : Option Int}

/-- The effect keeps the content of a register. -/
abbrev KeepsRegister (y : Nat) (content : Option Int) (eff : Effect α) : Prop :=
  Keeps (fun m => m.registers[y]? = content) eff

/-- Writing a register leaves the others alone. -/
theorem setRegister_other {x : Nat} (v : Int) (h : y ≠ x) :
    KeepsRegister y content (setRegister x v) := by
  refine Keeps.bind Keeps.machine fun m => ?_
  split
  · exact Keeps.change fun m hm => (Array.getElem?_setIfInBounds_ne h.symm).trans hm
  · exact Keeps.throw _

/-- An operation leaves all registers alone but its first one and maybe the flag register. -/
theorem combine_other {op : Operator} {x z : Nibble} (hx : y ≠ x.val)
    (hflag : op.setsFlag = true → y ≠ flagRegister.val) :
    KeepsRegister y content (combine op x z) := by
  refine Keeps.bind (register_keeps _) fun a => Keeps.bind (register_keeps _) fun b => ?_
  dsimp only
  split
  · rename_i f hf
    have hother := hflag (Operator.setsFlag_of_flag? hf)
    exact Keeps.bind (setRegister_other _ hother) fun _ => setRegister_other _ hx
  · exact setRegister_other _ hx

/-- Drawing writes the flag register only. -/
theorem draw_other (column line n : Nibble) (h : y ≠ flagRegister.val) :
    KeepsRegister y content (draw cfg column line n) := by
  refine Keeps.bind (register_keeps _) fun a => Keeps.bind (register_keeps _) fun b => ?_
  refine Keeps.bind Keeps.machine fun m => ?_
  exact Keeps.bind (Keeps.paint (fun _ _ hm => hm) _) fun hit => setRegister_other _ h

/-- Waiting for a key writes no register but its own. -/
theorem awaitKey_other {x : Nibble} (h : y ≠ x.val) :
    KeepsRegister y content (awaitKey cfg input x) := by
  refine Keeps.bind (firstPressed_keeps input _ _) fun key => ?_
  cases key with
  | some key =>
      refine Keeps.bind (setRegister_other _ h) fun _ => ?_
      exact Keeps.bind (Keeps.change fun m hm => hm) fun _ => Keeps.pure _
  | none =>
      refine Keeps.bind (Keeps.change fun m hm => hm) fun _ => Keeps.bind Keeps.machine fun m => ?_
      exact Keeps.bind (Keeps.change fun m hm => hm) fun _ => Keeps.pure _

/-- Loading leaves the registers behind the last one alone. -/
theorem loadRegisters_other {x : Nibble} (h : x.val < y) :
    KeepsRegister y content (loadRegisters cfg x) := by
  refine Chip8.Upholds.forM fun k hk => ?_
  have hother : y ≠ k := by
    have hlt := List.mem_range.1 hk
    omega
  show KeepsRegister y content _
  refine Keeps.bind Keeps.machine fun m => Keeps.bind (fetch_keeps cfg _) fun b => ?_
  exact Keeps.bind (setRegister_other _ hother) fun _ => Keeps.change fun m hm => hm

/-- An instruction keeps the registers that are not among its results. -/
theorem execute_register {i : Instruction} (h : y ∉ i.results) :
    KeepsRegister y content (execute cfg input pair i) := by
  -- an instruction that has no registers in its footprint keeps all of them
  by_cases hregisters : .registers ∈ i.footprint
  · cases i with
    | load x nn => exact finish_keeps (setRegister_other _ (List.ne_of_not_mem_cons h))
    | add x nn =>
        refine finish_keeps (Keeps.bind (register_keeps _) fun a => ?_)
        exact setRegister_other _ (List.ne_of_not_mem_cons h)
    | combine op x z =>
        have hflag : op.setsFlag = true → y ≠ flagRegister.val := by
          intro hsets
          have hrest := List.not_mem_of_not_mem_cons h
          rw [if_pos hsets] at hrest
          exact List.ne_of_not_mem_cons hrest
        exact finish_keeps (combine_other (List.ne_of_not_mem_cons h) hflag)
    | shift dir x =>
        have hx : y ≠ x.val := List.ne_of_not_mem_cons h
        have hflag : y ≠ flagRegister.val :=
          List.ne_of_not_mem_cons (List.not_mem_of_not_mem_cons h)
        refine finish_keeps (Keeps.bind (register_keeps _) fun a => ?_)
        exact Keeps.bind (setRegister_other _ hflag) fun _ => setRegister_other _ hx
    | random x mask =>
        refine finish_keeps (Keeps.bind (Keeps.emit _) fun _ => ?_)
        exact setRegister_other _ (List.ne_of_not_mem_cons h)
    | draw x z n =>
        exact finish_keeps (draw_other cfg x z n (List.ne_of_not_mem_cons h))
    | readTimer x =>
        refine finish_keeps (Keeps.bind Keeps.machine fun m => ?_)
        refine Keeps.bind (Keeps.ofExcept _) fun v => ?_
        exact setRegister_other _ (List.ne_of_not_mem_cons h)
    | awaitKey x => exact awaitKey_other cfg input (List.ne_of_not_mem_cons h)
    | loadRegisters x =>
        have hlt : x.val < y := by
          have hrange : y ∉ List.range (x + 1) := h
          rw [List.mem_range] at hrange
          omega
        exact finish_keeps (loadRegisters_other cfg hlt)
    | _ => simp [Instruction.footprint] at hregisters
  · refine Keeps.of_confined (execute_confined cfg input pair i) hregisters fun m m' hsame hm => ?_
    exact (congrArg (·[y]?) hsame).trans hm

end Registers

/-! ## Events -/

/-- An effect that has told the host nothing when it ends without a fault. -/
def Quiet (eff : Effect α) : Prop :=
  ∀ p a p', eff.run p = .ok a p' → p'.events = p.events

/-- An effect that does nothing to the host is quiet. -/
theorem Quiet.of_adds {eff : Effect α} (h : Adds (fun _ => False) eff) : Quiet eff := by
  intro p a p' hr
  obtain ⟨added, htold, hadded⟩ := h.run p
  rw [hr] at htold
  obtain rfl : added = #[] := Array.eq_empty_iff_forall_not_mem.2 hadded
  exact htold.trans Array.append_empty

/-- An instruction that may do nothing to the host is quiet, also if it may trap: a trap is reported
    but does not end without a fault. -/
theorem execute_quiet {i : Instruction} (h : ∀ e, ¬ i.MayTell e) :
    Quiet (execute cfg input pair i) := by
  intro p done p' hr
  cases ht : i.trap? cfg p.machine.depth with
  | some kind =>
      rw [execute_of_trap cfg input pair ht, trap_run] at hr
      cases hr
  | none =>
      obtain ⟨added, htold, hadded⟩ := execute_told cfg input pair ht
      rw [hr] at htold
      obtain rfl : added = #[] :=
        Array.eq_empty_iff_forall_not_mem.2 fun e he => h e (hadded e he)
      exact htold.trans Array.append_empty

/-- A skip on a key looks at this key, and at no other. -/
theorem skipKey_tells {down : Bool} {x : Nibble} {p p' : Progress} (hp : p.events = #[])
    (h : (execute cfg input pair (.skipKey down x)).run p = .ok true p') :
    (Instruction.skipKey down x).Tells input p.machine p'.events := by
  have hbody : (finish (register x >>= fun a => pollKey input (a % 16) >>= fun pressed =>
      skipIf (pressed == down))).run p = .ok true p' := h
  rw [finish, EStateM.run_bind] at hbody
  simp only [register, EStateM.run_bind, run_machine] at hbody
  cases hv : p.machine.registers[x.val]? with
  | none =>
      rw [hv] at hbody
      cases hbody
  | some v =>
      rw [hv] at hbody
      refine ⟨v, hv, ?_⟩
      have hskip : (finish (skipIf (input.pressed (v % 16) == down))).run
          ⟨p.machine, p.events.push (.polled (v % 16))⟩ = .ok true p' := hbody
      rw [Quiet.of_adds (finish_adds (skipIf_adds _)) _ _ _ hskip, hp]
      rfl

/-- A wait for a key that has ended has found one, and a register for it. -/
theorem awaitKey_of_done {x : Nibble} {p p' : Progress}
    (h : (awaitKey cfg input x).run p = .ok true p') :
    ∃ key, input.Least cfg key ∧
      p' = ⟨{ p.machine with
          registers := p.machine.registers.setIfInBounds x key
          waiting := false }, p.events ++ Event.polls 0 (key + 1)⟩ := by
  by_cases hsilent : input.Silent cfg
  · rw [awaitKey_run_silent cfg input x hsilent] at h
    cases h
  by_cases hx : x.val < p.machine.registers.size
  · obtain ⟨key, hkey⟩ := Input.exists_least hsilent
    rw [awaitKey_run_pressed cfg input hx hkey] at h
    cases h
    exact ⟨key, hkey, rfl⟩
  · obtain ⟨p'', hlost⟩ := awaitKey_run_lost cfg input hx hsilent
    rw [hlost] at h
    cases h

/-- Waiting for a key looks at the keys in turn, up to the first one that is down. -/
theorem awaitKey_tells {x : Nibble} {p p' : Progress} (hp : p.events = #[])
    (h : (execute {} input pair (.awaitKey x)).run p = .ok true p') :
    (Instruction.awaitKey x).Tells input p.machine p'.events := by
  replace h : (awaitKey {} input x).run p = .ok true p' := h
  obtain ⟨key, hkey, rfl⟩ := awaitKey_of_done {} input h
  refine ⟨key, hkey, ?_⟩
  rw [hp]
  exact Array.empty_append

/-- All that an instruction does to the host, if it is executed to the end. -/
theorem execute_tells {i : Instruction} {p p' : Progress} (hp : p.events = #[])
    (h : (execute {} input pair i).run p = .ok true p') : i.Tells input p.machine p'.events := by
  cases i with
  | random x mask =>
      have hset : (finish (setRegister x (Byte.wrap input.random &&& mask).toNat)).run
          ⟨p.machine, p.events.push (.drew 0 Byte.limit)⟩ = .ok true p' := h
      show p'.events = #[.drew 0 Byte.limit]
      rw [Quiet.of_adds (finish_adds (setRegister_adds _ _)) _ _ _ hset, hp]
      rfl
  | skipKey down x => exact skipKey_tells {} input pair hp h
  | awaitKey x => exact awaitKey_tells input pair hp h
  | beep x =>
      cases h
      show p.events.push .beeped = #[.beeped]
      rw [hp]
      rfl
  | _ => exact (execute_quiet {} input pair (fun _ => id) _ _ _ h).trans hp

/-! ## Calls and returns -/

/-- A call that does not trap pushes the program counter and goes on at its target. -/
theorem call_of_done {target : Address} {p p' : Progress}
    (h : (execute cfg input pair (.call target)).run p = .ok true p') :
    p'.machine = { p.machine with
      stack := p.machine.stack.setIfInBounds p.machine.depth p.machine.counter
      depth := p.machine.depth + 1
      counter := target } := by
  replace h : (finish (call cfg pair target)).run p = .ok true p' := h
  rw [finish_run] at h
  by_cases hfull : cfg.stackSize ≤ p.machine.depth
  · rw [call_run_full cfg pair _ hfull] at h
    cases h
  · by_cases hcell : p.machine.depth < p.machine.stack.size
    · rw [call_run_room cfg pair _ hfull hcell] at h
      cases h
      rfl
    · rw [call_run_lost cfg pair _ hfull hcell] at h
      cases h

/-- A return that does not trap goes on at the address that it pops. -/
theorem ret_of_done {p p' : Progress} (h : (execute cfg input pair .ret).run p = .ok true p') :
    ∃ depth a, p.machine.depth = depth + 1 ∧ p.machine.stack[depth]? = some a ∧
      p'.machine = { p.machine with depth := depth, counter := a } := by
  replace h : (finish (ret pair)).run p = .ok true p' := h
  rw [finish_run] at h
  cases hdepth : p.machine.depth with
  | zero =>
      rw [ret_run_empty pair hdepth] at h
      cases h
  | succ depth =>
      rw [ret_run_pending pair hdepth] at h
      cases hcell : p.machine.stack[depth]? with
      | some a =>
          rw [hcell] at h
          cases h
          exact ⟨depth, a, rfl, hcell, rfl⟩
      | none =>
          rw [hcell] at h
          cases h

/-- An instruction that is executed to the end does not halt the machine, and of the cells of the
    stack it changes at most the one that a call pushes. -/
theorem execute_stack {i : Instruction} {p p' : Progress}
    (h : (execute cfg input pair i).run p = .ok true p') :
    p'.machine.halted = p.machine.halted ∧
      ∀ k, (∀ target, i = .call target → k ≠ p.machine.depth) →
        p'.machine.stack[k]? = p.machine.stack[k]? := by
  -- calls and returns have the stack and the flag in their footprint, because they may trap
  cases hlinks : i.links with
  | false =>
      have hrun := execute_confined cfg input pair i p.machine p (Machine.SameBut.refl _ _)
      rw [h] at hrun
      have hstack := (Instruction.stack_not_mem_footprint hlinks).1
      have hhalted := Instruction.halted_not_mem_footprint hlinks
      have hsame : p'.machine.stack = p.machine.stack := hrun.2 .stack hstack
      exact ⟨hrun.2 .halted hhalted, fun k _ => congrArg (·[k]?) hsame⟩
  | true =>
      cases i with
      | call target =>
          rw [call_of_done cfg input pair h]
          refine ⟨rfl, fun k hk => ?_⟩
          exact Array.getElem?_setIfInBounds_ne (Ne.symm (hk target rfl))
      | ret =>
          obtain ⟨depth, a, -, -, hmachine⟩ := ret_of_done cfg input pair h
          rw [hmachine]
          exact ⟨rfl, fun _ _ => rfl⟩
      | _ => cases hlinks

end Effect

namespace Machine

/-! ## The step -/

/-- What a step of the usual configuration changes and does that executes an instruction to the
    end. -/
structure Framed (m : Machine) (input : Input) (i : Instruction) : Prop where
  /-- Other parts than these are the same. -/
  parts : m.SameBut (.counter :: .cycles :: i.footprint) (m.step {} input).machine
  memory : ∀ cell : Nat, (cell : Int) ∉ i.cells m.index →
    (m.step {} input).machine.memory[cell]? = m.memory[cell]?
  registers : ∀ x, x ∉ i.results →
    (m.step {} input).machine.registers[x]? = m.registers[x]?
  /-- A call changes the first cell that is not in use. -/
  stack : ∀ k, (∀ target, i = .call target → k ≠ m.depth) →
    (m.step {} input).machine.stack[k]? = m.stack[k]?
  /-- An instruction that is no jump is followed by the next one. -/
  counter : .counter ∉ i.footprint →
    (m.step {} input).machine.counter = (m.counter + 2) % 4096
  halted : (m.step {} input).machine.halted = false
  cycles : (m.step {} input).machine.cycles = m.cycles + 1
  events : i.Tells input m (m.step {} input).events

/-- A step that is executed to the end is one run of its instruction, and is counted. -/
theorem run_of_done {cfg : Config} {input : Input} {m : Machine}
    (h : (m.step cfg input).result = .ok true) :
    ∃ pair i p, m.halted = false ∧ m.next? cfg = some i ∧
      (Effect.execute cfg input pair i).run ⟨m.advance, Effect.traced cfg pair⟩ = .ok true p ∧
      m.step cfg input =
        ⟨.ok true, { p.machine with cycles := p.machine.cycles + 1 }, p.events⟩ := by
  cases hn : m.next? cfg with
  | none => exact absurd h (step_of_not_next cfg input hn).1
  | some i =>
      obtain ⟨-, hhalted, -⟩ := fetched_of_next cfg hn
      obtain ⟨pair, -, hs⟩ := step_of_next cfg input hn
      cases hr : (Effect.execute cfg input pair i).run ⟨m.advance, Effect.traced cfg pair⟩ with
      | error f p =>
          rw [hs, hr] at h
          cases h
      | ok done p =>
          rw [hs, hr] at h
          cases done with
          | false => cases h
          | true => exact ⟨pair, i, p, hhalted, rfl, hr, by rw [hs, hr]; rfl⟩

/-- A step that executes an instruction to the end changes the cells, registers and other parts
    that belong to the instruction, moves on and counts. Everything else stays as it is. It asks the
    host for a random number, for keys or for a beep exactly if that is what the instruction is
    for. -/
theorem step_framed {m : Machine} {input : Input} (h : (m.step {} input).result = .ok true) :
    ∃ i, m.next? {} = some i ∧ m.Framed input i := by
  -- a step is one run of its instruction, to which it adds nothing but the count
  obtain ⟨pair, i, p, hhalted, hnext, hrun, hstep⟩ := run_of_done h
  have hmoved := step_sameBut_of_next {} input hnext
  obtain ⟨hkept, hstack⟩ := Effect.execute_stack {} input pair hrun
  refine ⟨i, hnext, ⟨fun part hpart => ?_, fun cell hcell => ?_, fun x hx => ?_, ?_, fun hc => ?_,
    ?_, (step_cycles {} input m).1 h, ?_⟩⟩
  · simp only [List.mem_cons, not_or] at hpart
    obtain ⟨hcounter, hcycles, hfoot⟩ := hpart
    refine (advance_same m hcounter).trans (hmoved part ?_)
    simp only [List.mem_cons, not_or]
    exact ⟨hcycles, hfoot⟩
  · refine step_memory rfl input fun i' hi hwrites => hcell ?_
    cases hnext.symm.trans hi
    exact Instruction.mem_cells_of_writesTo hwrites
  · have hregister :=
      Effect.execute_register {} input pair hx ⟨m.advance, Effect.traced {} pair⟩ rfl
    rw [hrun] at hregister
    rw [hstep]
    exact hregister.2
  · rw [hstep]
    exact hstack
  · exact hmoved .counter fun hmem => hc (List.mem_of_ne_of_mem (by decide) hmem)
  · rw [hstep]
    exact hkept.trans hhalted
  · rw [hstep]
    exact Effect.execute_tells input pair rfl hrun

/-- The program `F155` stores registers 0 and 1 in the last and in the first cell of memory. -/
theorem step_framed_last_cell :
    let m := { initial {} 0.0 with
      memory := (Array.replicate 4096 0xF1).setIfInBounds 0x201 0x55, index := 4095 }
    let input : Input := ⟨fun _ => true, 0.0, 7⟩
    (m.step {} input).result = .ok true ∧ m.Framed input (.storeRegisters 1) ∧
      ∀ cell : Nat, cell ≠ 4095 → cell ≠ 0 →
        (m.step {} input).machine.memory[cell]? = m.memory[cell]? := by
  intro m input
  have hdone : (m.step {} input).result = .ok true := by decide +kernel
  have hp : m.fetched? {} = some ⟨0x200, 0xF1, 0x55⟩ := by decide +kernel
  have hd : Instruction.decode 0xF1 0x55 = some (.storeRegisters 1) := by decide
  obtain ⟨i, hnext, hframed⟩ := step_framed hdone
  cases ((next?_of_fetched {} rfl hp).trans hd).symm.trans hnext
  refine ⟨hdone, hframed, fun cell hlast hfirst => hframed.memory cell fun hmem => ?_⟩
  obtain ⟨k, hk, heq⟩ := List.mem_map.1 hmem
  have hlt : k < 2 := List.mem_range.1 hk
  have hindex : m.index = 4095 := rfl
  omega

end Machine

end Chip8
