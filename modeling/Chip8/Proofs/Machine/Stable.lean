import Chip8.Proofs.Machine.Trap

/-!
# Stable invariants

Instructions change a machine in a few small ways: a cell or a register gets a value, the program
counter and the index register get an address, the stack grows or shrinks by one, the timer or the
screen is replaced, a flag is set. An invariant is `Machine.Stable` if it survives each of these,
whatever the values are. Then it survives every instruction and every step, for any configuration
and on any host, also where a step fails (`Machine.Stable.step`).

This is for invariants about the shape of a machine. Those about the values it holds need to know
what is computed, as `Machine.Valid` does.
-/

namespace Chip8

namespace Machine

/-- An invariant that no part of an instruction can break. -/
structure Stable (inv : Machine → Prop) : Prop where
  memory : ∀ m i b, inv m → inv { m with memory := m.memory.setIfInBounds i b }
  registers : ∀ m x v, inv m → inv { m with registers := m.registers.setIfInBounds x v }
  index : ∀ m a, inv m → inv { m with index := Address.wrap a }
  counter : ∀ m a, inv m → inv { m with counter := Address.wrap a }
  /-- A call finds a cell for its return address. -/
  push : ∀ (m : Machine) (target : Address), m.depth < m.stack.size → inv m →
    inv { m with
      stack := m.stack.setIfInBounds m.depth m.counter
      depth := m.depth + 1
      counter := target }
  pop : ∀ (m : Machine) (depth : Nat), m.depth = depth + 1 → inv m → inv { m with depth := depth }
  /-- A return continues at the address that it popped. -/
  resume : ∀ (m : Machine) (a : Int), m.stack[m.depth]? = some a → inv m →
    inv { m with counter := a }
  timer : ∀ m t, inv m → inv { m with timer := t }
  screen : ∀ m s, inv m → inv { m with screen := s }
  waiting : ∀ m b, inv m → inv { m with waiting := b }
  halted : ∀ m, inv m → inv { m with halted := true }
  cycles : ∀ m n, inv m → inv { m with cycles := n }

end Machine

namespace Effect

open Machine (Stable)

variable {α β : Type} {inv : Machine → Prop}

/-- An effect that keeps an invariant, whatever comes of it. -/
abbrev Keeps (inv : Machine → Prop) (eff : Effect α) : Prop :=
  Upholds inv (fun _ => True) (fun _ => True) eff

theorem Keeps.pure (a : α) : Keeps inv (pure a : Effect α) := Chip8.Upholds.pure trivial

theorem Keeps.throw (f : Fault) : Keeps inv (throw f : Effect α) := Chip8.Upholds.throw trivial

theorem Keeps.bind {eff : Effect α} {next : α → Effect β} (h : Keeps inv eff)
    (hnext : ∀ a, Keeps inv (next a)) : Keeps inv (eff >>= next) :=
  Chip8.Upholds.bind h fun a _ => hnext a

theorem Keeps.machine : Keeps inv Effect.machine := Chip8.Upholds.any Upholds.machine

theorem Keeps.ofExcept (x : Except Fault α) : Keeps inv (ofExcept x : Effect α) :=
  Chip8.Upholds.ofExcept_any fun _ _ => trivial

theorem Keeps.emit (e : Event) : Keeps inv (Effect.emit e) := Upholds.emit

theorem Keeps.change {f : Machine → Machine} (h : ∀ m, inv m → inv (f m)) :
    Keeps inv (Effect.change f) := Upholds.change h

theorem Keeps.forM {l : List β} {body : β → Effect Unit} (h : ∀ b, Keeps inv (body b)) :
    Keeps inv (l.forM body) := Chip8.Upholds.forM fun b _ => h b

/-- Painting leaves some screen or other. -/
theorem Keeps.paint (h : ∀ m s, inv m → inv { m with screen := s }) (act : Paint α) :
    Keeps inv (paint act) := by
  have hact : Chip8.Upholds (fun _ : Screen => True) (fun _ => True) (fun _ => True) act := by
    intro s _
    cases act.run s <;> exact ⟨trivial, trivial⟩
  exact Upholds.paint (fun _ _ => trivial) (fun m s hm _ => h m s hm) hact

/-- An invariant of one part of the machine is kept where that part is. -/
theorem Keeps.of_confined {parts : List Part} {mayTrap : Bool} {eff : Effect α} {part : Part}
    (heff : Confined parts mayTrap eff) (hpart : part ∉ parts)
    (h : ∀ m m', part.Same m m' → inv m → inv m') : Keeps inv eff := by
  intro p hp
  have hrun := heff p.machine p (Machine.SameBut.refl _ _)
  cases hr : eff.run p with
  | ok a p' =>
      rw [hr] at hrun
      exact ⟨trivial, h _ _ (hrun.2 part hpart) hp⟩
  | error f p' =>
      rw [hr] at hrun
      exact ⟨trivial, h _ _ (hrun.2 part hpart) hp⟩

/-! ## Effects that change nothing -/

/-- Reading a register changes nothing, so it keeps everything. -/
theorem register_keeps (x : Nat) : Keeps inv (register x) := by
  refine Keeps.bind Keeps.machine fun m => ?_
  split
  · exact Keeps.pure _
  · exact Keeps.throw _

theorem fetch_keeps (cfg : Config) (address : Int) : Keeps inv (fetch cfg address) := by
  refine Keeps.bind (Keeps.ofExcept _) fun place => Keeps.bind Keeps.machine fun m => ?_
  split
  · exact Keeps.pure _
  · exact Keeps.throw _

theorem comparand_keeps (other : Comparand) : Keeps inv (comparand other) := by
  cases other with
  | byte nn => exact Keeps.pure _
  | register y => exact register_keeps _

theorem pollKey_keeps (input : Input) (key : Int) : Keeps inv (pollKey input key) :=
  Keeps.bind (Keeps.emit _) fun _ => Keeps.pure _

theorem firstPressed_keeps (input : Input) (key n : Nat) :
    Keeps inv (firstPressed input key n) := by
  induction n generalizing key with
  | zero => exact Keeps.pure _
  | succ n ih =>
      refine Keeps.bind (pollKey_keeps input _) fun pressed => ?_
      split
      · exact Keeps.pure _
      · exact ih (key + 1)

theorem finish_keeps {eff : Effect Unit} (heff : Keeps inv eff) : Keeps inv (finish eff) :=
  Keeps.bind heff fun _ => Keeps.pure _

/-! ## Effects that change the machine -/

section Primitive

variable (h : Stable inv)

include h

theorem setRegister_keeps (x : Nat) (v : Int) : Keeps inv (setRegister x v) := by
  refine Keeps.bind Keeps.machine fun m => ?_
  split
  · exact Keeps.change fun m hm => h.registers m x v hm
  · exact Keeps.throw _

theorem store_keeps (cfg : Config) (address value : Int) : Keeps inv (store cfg address value) := by
  refine Keeps.bind (Keeps.ofExcept _) fun place => Keeps.bind Keeps.machine fun m => ?_
  split
  · exact Keeps.change fun m hm => h.memory m _ _ hm
  · exact Keeps.throw _
  · exact Keeps.throw _

theorem setIndex_keeps (a : Int) : Keeps inv (setIndex a) :=
  Keeps.change fun m hm => h.index m a hm

theorem jump_keeps (a : Int) : Keeps inv (jump a) := Keeps.change fun m hm => h.counter m a hm

theorem skipIf_keeps (condition : Bool) : Keeps inv (skipIf condition) := by
  rw [skipIf]
  split
  · exact Keeps.bind Keeps.machine fun m => jump_keeps h _
  · exact Keeps.pure _

theorem paint_keeps (act : Paint α) : Keeps inv (paint act) := Keeps.paint h.screen act

end Primitive

/-! ## The instruction set -/

variable (h : Stable inv) (cfg : Config) (input : Input) (pair : Fetched)

include h

theorem trap_keeps (kind : TrapKind) : Keeps inv (trap pair kind : Effect α) :=
  (Upholds.trap pair h.halted trivial).any

/-- A call that does not trap pushes its return address into a cell that is there. -/
theorem call_keeps (target : Address) : Keeps inv (call cfg pair target) := by
  intro p hp
  -- whether there is room is known of the machine that is looked at
  by_cases hfull : cfg.stackSize ≤ p.machine.depth
  · rw [call_run_full cfg pair _ hfull]
    exact trap_keeps (α := Unit) h pair _ p hp
  · by_cases hcell : p.machine.depth < p.machine.stack.size
    · rw [call_run_room cfg pair _ hfull hcell]
      exact ⟨trivial, h.push p.machine target hcell hp⟩
    · rw [call_run_lost cfg pair _ hfull hcell]
      exact ⟨trivial, hp⟩

/-- A return goes on at an address that it found on the stack. -/
theorem ret_keeps : Keeps inv (ret pair) := by
  intro p hp
  cases hdepth : p.machine.depth with
  | zero =>
      rw [ret_run_empty pair hdepth]
      exact trap_keeps (α := Unit) h pair _ p hp
  | succ depth =>
      have hpop := h.pop p.machine depth hdepth hp
      rw [ret_run_pending pair hdepth]
      cases hcell : p.machine.stack[depth]? with
      | some a => exact ⟨trivial, h.resume _ a hcell hpop⟩
      | none => exact ⟨trivial, hpop⟩

theorem scroll_keeps (n : Int) : Keeps inv (scroll cfg n) := by
  refine Keeps.bind Keeps.machine fun m => Keeps.bind (Keeps.ofExcept _) fun s => ?_
  exact Keeps.change fun m hm => h.screen m s hm

theorem combine_keeps (op : Operator) (x y : Nibble) : Keeps inv (combine op x y) := by
  refine Keeps.bind (register_keeps _) fun a => Keeps.bind (register_keeps _) fun b => ?_
  dsimp only
  split
  · exact Keeps.bind (setRegister_keeps h _ _) fun _ => setRegister_keeps h _ _
  · exact setRegister_keeps h _ _

theorem shift_keeps (dir : Shift) (x : Nibble) : Keeps inv (shift dir x) := by
  refine Keeps.bind (register_keeps _) fun a => ?_
  exact Keeps.bind (setRegister_keeps h _ _) fun _ => setRegister_keeps h _ _

theorem random_keeps (x : Nibble) (mask : Byte) : Keeps inv (random input x mask) :=
  Keeps.bind (Keeps.emit _) fun _ => setRegister_keeps h _ _

theorem draw_keeps (x y n : Nibble) : Keeps inv (draw cfg x y n) := by
  refine Keeps.bind (register_keeps _) fun column => ?_
  refine Keeps.bind (register_keeps _) fun line => Keeps.bind Keeps.machine fun m => ?_
  exact Keeps.bind (paint_keeps h _) fun hit => setRegister_keeps h _ _

theorem awaitKey_keeps (x : Nibble) : Keeps inv (awaitKey cfg input x) := by
  refine Keeps.bind (firstPressed_keeps input _ _) fun key => ?_
  cases key with
  | some key =>
      refine Keeps.bind (setRegister_keeps h _ _) fun _ => ?_
      exact Keeps.bind (Keeps.change fun m hm => h.waiting m _ hm) fun _ => Keeps.pure _
  | none =>
      refine Keeps.bind (Keeps.change fun m hm => h.waiting m _ hm) fun _ => ?_
      refine Keeps.bind Keeps.machine fun m => ?_
      exact Keeps.bind (jump_keeps h _) fun _ => Keeps.pure _

theorem storeDigits_keeps (x : Nibble) : Keeps inv (storeDigits cfg x) := by
  refine Keeps.bind (register_keeps _) fun v => Keeps.bind Keeps.machine fun m => ?_
  refine Keeps.bind (store_keeps h cfg _ _) fun _ => ?_
  exact Keeps.bind (store_keeps h cfg _ _) fun _ => store_keeps h cfg _ _

theorem storeRegisters_keeps (x : Nibble) : Keeps inv (storeRegisters cfg x) := by
  refine Keeps.forM fun k => Keeps.bind (register_keeps _) fun v => ?_
  refine Keeps.bind Keeps.machine fun m => ?_
  exact Keeps.bind (store_keeps h cfg _ _) fun _ => setIndex_keeps h _

theorem loadRegisters_keeps (x : Nibble) : Keeps inv (loadRegisters cfg x) := by
  refine Keeps.forM fun k => Keeps.bind Keeps.machine fun m => ?_
  refine Keeps.bind (fetch_keeps cfg _) fun b => ?_
  exact Keeps.bind (setRegister_keeps h _ _) fun _ => setIndex_keeps h _

/-- Every instruction keeps a stable invariant, whatever comes of it. -/
theorem execute_keeps (i : Instruction) : Keeps inv (execute cfg input pair i) := by
  cases i with
  | clear => exact finish_keeps (Keeps.change fun m hm => h.screen m _ hm)
  | ret => exact finish_keeps (ret_keeps h pair)
  | resolution high => exact finish_keeps (Keeps.change fun m hm => h.screen m _ hm)
  | scroll n => exact finish_keeps (scroll_keeps h cfg n)
  | jump target => exact finish_keeps (jump_keeps h _)
  | call target => exact finish_keeps (call_keeps h cfg pair target)
  | skip equal x other =>
      refine finish_keeps (Keeps.bind (register_keeps _) fun a => ?_)
      exact Keeps.bind (comparand_keeps other) fun b => skipIf_keeps h _
  | load x nn => exact finish_keeps (setRegister_keeps h _ _)
  | add x nn =>
      exact finish_keeps (Keeps.bind (register_keeps _) fun a => setRegister_keeps h _ _)
  | combine op x y => exact finish_keeps (combine_keeps h op x y)
  | shift dir x => exact finish_keeps (shift_keeps h dir x)
  | index target => exact finish_keeps (setIndex_keeps h _)
  | jumpOffset base =>
      exact finish_keeps (Keeps.bind (register_keeps _) fun a => jump_keeps h _)
  | random x mask => exact finish_keeps (random_keeps h input x mask)
  | draw x y n => exact finish_keeps (draw_keeps h cfg x y n)
  | skipKey down x =>
      refine finish_keeps (Keeps.bind (register_keeps _) fun a => ?_)
      exact Keeps.bind (pollKey_keeps input _) fun pressed => skipIf_keeps h _
  | readTimer x =>
      refine finish_keeps (Keeps.bind Keeps.machine fun m => ?_)
      exact Keeps.bind (Keeps.ofExcept _) fun v => setRegister_keeps h _ _
  | awaitKey x => exact awaitKey_keeps h cfg input x
  | setTimer x =>
      refine finish_keeps (Keeps.bind (register_keeps _) fun v => ?_)
      exact Keeps.change fun m hm => h.timer m _ hm
  | beep x => exact finish_keeps (Keeps.emit _)
  | advanceIndex x =>
      refine finish_keeps (Keeps.bind (register_keeps _) fun v => ?_)
      exact Keeps.bind Keeps.machine fun m => setIndex_keeps h _
  | glyph x =>
      exact finish_keeps (Keeps.bind (register_keeps _) fun v => setIndex_keeps h _)
  | storeDigits x => exact finish_keeps (storeDigits_keeps h cfg x)
  | storeRegisters x => exact finish_keeps (storeRegisters_keeps h cfg x)
  | loadRegisters x => exact finish_keeps (loadRegisters_keeps h cfg x)

/-- A pair that is no instruction halts the machine, which keeps a stable invariant as well. -/
theorem executePair_keeps : Keeps inv (executePair cfg input pair) := by
  rw [executePair]
  split
  · exact execute_keeps h cfg input pair _
  · exact trap_keeps h pair _

theorem settle_keeps {eff : Effect Bool} (heff : Keeps inv eff) {p : Progress}
    (hp : inv p.machine) : inv (settle (eff.run p)).machine := by
  have hrun := heff p hp
  cases hr : eff.run p with
  | error f p' =>
      rw [hr] at hrun
      exact hrun.2
  | ok done p' =>
      rw [hr] at hrun
      cases done with
      | true => exact h.cycles p'.machine _ hrun.2
      | false => exact hrun.2

end Effect

/-- Every step keeps a stable invariant. -/
theorem Machine.Stable.step {inv : Machine → Prop} (h : Stable inv) (cfg : Config) (input : Input)
    {m : Machine} (hm : inv m) : inv (m.step cfg input).machine := by
  cases hh : m.halted with
  | true =>
      rw [step_of_halted cfg input hh]
      exact hm
  | false =>
      cases hp : m.fetched? cfg with
      | none =>
          obtain ⟨f, _, hs⟩ := step_of_not_fetched cfg input hh hp
          rw [hs]
          exact hm
      | some pair =>
          have hadvance : inv m.advance := h.counter m _ hm
          rw [step_of_fetched cfg input hh hp]
          exact Effect.settle_keeps h (Effect.executePair_keeps h cfg input pair) hadvance

namespace Machine

/-- What is only about the sizes of memory and of the registers is stable. -/
theorem sizes_stable (P : Nat → Nat → Prop) : Stable fun m => P m.memory.size m.registers.size where
  memory := fun m i b h => by
    show P (m.memory.setIfInBounds i b).size m.registers.size
    rw [Array.size_setIfInBounds]
    exact h
  registers := fun m x v h => by
    show P m.memory.size (m.registers.setIfInBounds x v).size
    rw [Array.size_setIfInBounds]
    exact h
  index := fun _ _ h => h
  counter := fun _ _ h => h
  push := fun _ _ _ h => h
  pop := fun _ _ _ h => h
  resume := fun _ _ _ h => h
  timer := fun _ _ h => h
  screen := fun _ _ h => h
  waiting := fun _ _ h => h
  halted := fun _ h => h
  cycles := fun _ _ h => h

/-- No part of an instruction changes the size of memory. -/
theorem memory_size_stable (n : Nat) : Stable fun m => m.memory.size = n :=
  sizes_stable fun memory _ => memory = n

/-- No part of an instruction adds a register or removes one. -/
theorem registers_size_stable (n : Nat) : Stable fun m => m.registers.size = n :=
  sizes_stable fun _ registers => registers = n

end Machine

end Chip8
