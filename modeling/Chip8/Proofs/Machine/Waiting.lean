import Chip8.Machine.Run
import Chip8.Proofs.Machine.Reachable
import Chip8.Proofs.Machine.Stable
import Mathlib.Data.Nat.Find

/-!
# Waiting for a key

The instruction that waits for a key looks at the keys in order, up to the first that is down. If
there is none, the machine goes back to the instruction and changes in nothing but that it waits,
so the wait can be as long as it likes: what comes in the end is what would have come at once.

  * `Input.Silent`, `Input.Least` : that no key is down, and which is the first one that is,
  * `Machine.Blocks`  : how an instruction waits for a key,
  * `Machine.Session` : runs of steps and resets, with the latest step since the last reset,
  * `Machine.Waits`   : what the flag of a waiting machine says about its latest step.
-/

namespace Chip8

/-- None of the keys that the machine knows is down. -/
def Input.Silent (cfg : Config) (input : Input) : Prop :=
  ∀ key : Nat, (key : Int) < cfg.keyCount → input.pressed key = false

/-- The first of the keys that the machine knows and that are down. -/
def Input.Least (cfg : Config) (input : Input) (key : Nat) : Prop :=
  (key : Int) < cfg.keyCount ∧ input.pressed key = true ∧ ∀ k < key, input.pressed k = false

/-- A key that is down and known is the first one or comes behind it. -/
theorem Input.exists_least {cfg : Config} {input : Input} (h : ¬ input.Silent cfg) :
    ∃ key, input.Least cfg key := by
  simp only [Input.Silent, not_forall, Bool.not_eq_false] at h
  obtain ⟨key, hlt, hkey⟩ := h
  have hdown : ∃ key : Nat, input.pressed key = true := ⟨key, hkey⟩
  have hle : Nat.find hdown ≤ key := Nat.find_min' hdown hkey
  refine ⟨Nat.find hdown, by omega, Nat.find_spec hdown, fun k hk => ?_⟩
  exact Bool.eq_false_iff.2 (Nat.find_min hdown hk)

/-- Looks at `n` keys from number `key` on. -/
def Event.polls (key n : Nat) : Array Event :=
  ((List.range' key n).map fun (k : Nat) => Event.polled k).toArray

theorem Event.polls_succ (key n : Nat) (events : Array Event) :
    events.push (.polled key) ++ polls (key + 1) n = events ++ polls key (n + 1) := by
  apply Array.ext'
  simp [polls, List.range'_succ]

namespace Effect

variable (cfg : Config) (input : Input)

/-- The answer for a key is what the host says, who is told that it was asked. -/
theorem pollKey_run (key : Int) (p : Progress) :
    (pollKey input key).run p = .ok (input.pressed key) ⟨p.machine, p.events.push (.polled key)⟩ :=
  rfl

/-- If no key is down, all are looked at. -/
theorem firstPressed_run_silent {key n : Nat} {p : Progress}
    (h : ∀ k, k < key + n → input.pressed k = false) :
    (firstPressed input key n).run p = .ok none ⟨p.machine, p.events ++ Event.polls key n⟩ := by
  induction n generalizing key p with
  | zero =>
      show EStateM.Result.ok none p = .ok none ⟨p.machine, p.events ++ #[]⟩
      rw [Array.append_empty]
  | succ n ih =>
      have hkey := h key (by omega)
      simp only [firstPressed, EStateM.run_bind, pollKey_run, hkey, Bool.false_eq_true, if_false]
      rw [ih fun k hk => h k (by omega), Event.polls_succ]

/-- The first key that is down is the last one that is looked at. -/
theorem firstPressed_run_pressed {key n k : Nat} {p : Progress} (hk : k < n)
    (hdown : input.pressed (key + k : Nat) = true)
    (hleast : ∀ j < key + k, input.pressed j = false) :
    (firstPressed input key n).run p
      = .ok (some (key + k)) ⟨p.machine, p.events ++ Event.polls key (k + 1)⟩ := by
  -- a key that is not down is behind, and the one that is down is one nearer
  induction n generalizing key k p with
  | zero => exact absurd hk (Nat.not_lt_zero k)
  | succ n ih =>
      simp only [firstPressed, EStateM.run_bind, pollKey_run]
      cases k with
      | zero =>
          rw [Nat.add_zero] at hdown
          rw [← Event.polls_succ, Nat.add_zero]
          simp only [hdown, if_true]
          rfl
      | succ k =>
          have hkey := hleast key (by omega)
          have hshift : key + (k + 1) = key + 1 + k := by omega
          rw [hshift] at hdown hleast ⊢
          simp only [hkey, Bool.false_eq_true, if_false]
          rw [ih (by omega) hdown hleast, Event.polls_succ]

/-- A register that exists takes the value, and nothing else happens. -/
theorem setRegister_run {p : Progress} {x : Nat} (v : Int) (h : x < p.machine.registers.size) :
    (setRegister x v).run p = .ok ()
      ⟨{ p.machine with registers := p.machine.registers.setIfInBounds x v }, p.events⟩ := by
  simp only [setRegister, machine, EStateM.run_bind, EStateM.run_get, EStateM.run_pure, if_pos h]
  rfl

/-- Without a key the machine goes back to the instruction. -/
theorem awaitKey_run_silent {p : Progress} (x : Nibble) (h : input.Silent cfg) :
    (awaitKey cfg input x).run p = .ok false
      ⟨{ p.machine with
          waiting := true
          counter := Address.wrap (p.machine.counter - 2) },
        p.events ++ Event.polls 0 cfg.keyCount.toNat⟩ := by
  have hnone : (firstPressed input 0 cfg.keyCount.toNat).run p
      = .ok none ⟨p.machine, p.events ++ Event.polls 0 cfg.keyCount.toNat⟩ :=
    firstPressed_run_silent input fun k hk => h k (by omega)
  simp only [awaitKey, EStateM.run_bind, hnone]
  rfl

/-- With a key the instruction is done. -/
theorem awaitKey_run_pressed {p : Progress} {x : Nibble} {key : Nat}
    (hx : x.val < p.machine.registers.size) (h : input.Least cfg key) :
    (awaitKey cfg input x).run p = .ok true
      ⟨{ p.machine with
          registers := p.machine.registers.setIfInBounds x key
          waiting := false },
        p.events ++ Event.polls 0 (key + 1)⟩ := by
  obtain ⟨hknown, hdown, hleast⟩ := h
  have hsome : (firstPressed input 0 cfg.keyCount.toNat).run p
      = .ok (some (0 + key)) ⟨p.machine, p.events ++ Event.polls 0 (key + 1)⟩ :=
    firstPressed_run_pressed input (by omega) (by rwa [Nat.zero_add]) (by rwa [Nat.zero_add])
  rw [Nat.zero_add] at hsome
  have hset := setRegister_run (p := ⟨p.machine, p.events ++ Event.polls 0 (key + 1)⟩) key hx
  simp only [awaitKey, EStateM.run_bind, hsome, hset]
  rfl

end Effect

namespace Machine

variable {cfg : Config} {m : Machine} {pair : Fetched} {x : Nibble}

/-- A step back over an instruction undoes the step over it. -/
theorem wrap_back {a : Int} (h : 0 ≤ a ∧ a < 4096) :
    Address.wrap (Address.wrap (a + 2) - 2) = a := by
  simp only [Address.wrap]
  omega

/-- A step that finds no key down changes nothing but the flag. -/
theorem step_awaitKey_silent {input : Input} (hh : m.halted = false)
    (hp : m.fetched? cfg = some pair)
    (hd : Instruction.decode pair.opcode pair.argument = some (.awaitKey x))
    (hcounter : 0 ≤ m.counter ∧ m.counter < 4096) (h : input.Silent cfg) :
    m.step cfg input = ⟨.ok false, { m with waiting := true },
      Effect.traced cfg pair ++ Event.polls 0 cfg.keyCount.toNat⟩ := by
  rw [step_of_fetched cfg input hh hp, Effect.executePair, hd]
  show Effect.settle ((Effect.awaitKey cfg input x).run _) = _
  rw [Effect.awaitKey_run_silent cfg input x h]
  show (⟨.ok false, { m with
    waiting := true
    counter := Address.wrap (Address.wrap (m.counter + 2) - 2) }, _⟩ : Outcome Bool) = _
  rw [wrap_back hcounter]

/-- A step that finds a key down executes the instruction to the end. -/
theorem step_awaitKey_pressed {input : Input} {key : Nat} (hh : m.halted = false)
    (hp : m.fetched? cfg = some pair)
    (hd : Instruction.decode pair.opcode pair.argument = some (.awaitKey x))
    (hx : x.val < m.registers.size) (h : input.Least cfg key) :
    m.step cfg input = ⟨.ok true, { m with
        registers := m.registers.setIfInBounds x key
        waiting := false
        counter := Address.wrap (m.counter + 2)
        cycles := m.cycles + 1 },
      Effect.traced cfg pair ++ Event.polls 0 (key + 1)⟩ := by
  rw [step_of_fetched cfg input hh hp, Effect.executePair, hd]
  show Effect.settle ((Effect.awaitKey cfg input x).run _) = _
  rw [Effect.awaitKey_run_pressed cfg input (p := ⟨m.advance, _⟩) hx h]
  rfl

/-- How a machine waits at the pair that puts a key into register X. -/
structure Blocks (cfg : Config) (m : Machine) (pair : Fetched) (x : Nibble) : Prop where
  /-- However often there is no key: each time all keys are looked at and nothing changes but the
      flag. Then the first key that is down is taken, as if the machine had not waited. -/
  retries : ∀ (inputs : List Input) (last : Input),
    (∀ input ∈ inputs, input.Silent cfg) → ¬ last.Silent cfg →
    ∃ key, last.Least cfg key ∧
      m.outcomes cfg (inputs ++ [last]) =
        (inputs.map fun _ => ⟨.ok false, { m with waiting := true },
          Effect.traced cfg pair ++ Event.polls 0 cfg.keyCount.toNat⟩) ++ [m.step cfg last] ∧
      m.step cfg last = ⟨.ok true, { m with
          registers := m.registers.setIfInBounds x key
          waiting := false
          counter := Address.wrap (m.counter + 2)
          cycles := m.cycles + 1 },
        Effect.traced cfg pair ++ Event.polls 0 (key + 1)⟩
  /-- Only keys that the machine knows matter. -/
  ignores : ∀ input input' : Input,
    (∀ key : Nat, (key : Int) < cfg.keyCount → input.pressed key = input'.pressed key) →
    m.step cfg input = m.step cfg input'

/-- Any number of steps without a key, and one with a key. -/
theorem outcomes_awaitKey {inputs : List Input} {last : Input} {key : Nat}
    (hh : m.halted = false) (hp : m.fetched? cfg = some pair)
    (hd : Instruction.decode pair.opcode pair.argument = some (.awaitKey x))
    (hcounter : 0 ≤ m.counter ∧ m.counter < 4096) (hx : x.val < m.registers.size)
    (hsilent : ∀ input ∈ inputs, input.Silent cfg) (hlast : last.Least cfg key) :
    m.outcomes cfg (inputs ++ [last]) =
      (inputs.map fun _ => ⟨.ok false, { m with waiting := true },
        Effect.traced cfg pair ++ Event.polls 0 cfg.keyCount.toNat⟩) ++ [m.step cfg last] := by
  induction inputs generalizing m with
  | nil => rfl
  | cons input inputs ih =>
      have hfirst := step_awaitKey_silent hh hp hd hcounter (hsilent input List.mem_cons_self)
      have hrest := ih (m := { m with waiting := true }) hh hp hcounter hx
        fun input hinput => hsilent input (List.mem_cons_of_mem _ hinput)
      -- the flag is the only trace of the first step, and the last step clears it
      have hsame : step cfg last { m with waiting := true } = m.step cfg last :=
        (step_awaitKey_pressed (m := { m with waiting := true }) hh hp hd hx hlast).trans
          (step_awaitKey_pressed hh hp hd hx hlast).symm
      rw [hsame] at hrest
      rw [List.cons_append, outcomes, hfirst, List.map_cons, List.cons_append]
      exact congrArg _ hrest

/-- A machine at an instruction that waits for a key waits until one is down. -/
theorem blocks_of_awaitKey (hh : m.halted = false) (hp : m.fetched? cfg = some pair)
    (hd : Instruction.decode pair.opcode pair.argument = some (.awaitKey x))
    (hcounter : 0 ≤ m.counter ∧ m.counter < 4096) (hx : x.val < m.registers.size) :
    m.Blocks cfg pair x where
  retries inputs last hsilent hlast := by
    obtain ⟨key, hkey⟩ := Input.exists_least hlast
    exact ⟨key, hkey, outcomes_awaitKey hh hp hd hcounter hx hsilent hkey,
      step_awaitKey_pressed hh hp hd hx hkey⟩
  ignores input input' hsame := by
    by_cases hsilent : input.Silent cfg
    · have hsilent' : input'.Silent cfg := fun key hkey =>
        (hsame key hkey).symm.trans (hsilent key hkey)
      rw [step_awaitKey_silent hh hp hd hcounter hsilent,
        step_awaitKey_silent hh hp hd hcounter hsilent']
    · obtain ⟨key, hkey⟩ := Input.exists_least hsilent
      have hkey' : input'.Least cfg key := by
        obtain ⟨hknown, hdown, hleast⟩ := hkey
        refine ⟨hknown, (hsame key hknown).symm.trans hdown, fun k hk => ?_⟩
        exact (hsame k (by omega)).symm.trans (hleast k hk)
      rw [step_awaitKey_pressed hh hp hd hx hkey, step_awaitKey_pressed hh hp hd hx hkey']

/-! ## The flag of a waiting machine -/

/-- Runs of steps and resets, on any host, with the machine and the input of the latest step since
    the last reset. Programs are loaded before the first step. -/
inductive Session (cfg : Config) : Option (Machine × Input) → Machine → Prop where
  | create {m : Machine} (now : Float) : create cfg now = .ok m → Session cfg none m
  | load {m : Machine} (image : Array Byte) :
      Session cfg none m → Session cfg none (m.load cfg image).machine
  | step {latest : Option (Machine × Input)} {m : Machine} (input : Input) :
      Session cfg latest m → Session cfg (some (m, input)) (m.step cfg input).machine
  | reset {latest : Option (Machine × Input)} {m : Machine} (now : Float) :
      Session cfg latest m → Session cfg none (m.reset cfg now)

/-- The usual number of registers, with addresses in the program counter and on the stack. -/
structure Placed (m : Machine) : Prop where
  registers : m.registers.size = 16
  counter : 0 ≤ m.counter ∧ m.counter < 4096
  returns : ∀ a ∈ m.stack, 0 ≤ a ∧ a < 4096

theorem Placed.register_lt (h : m.Placed) (x : Nibble) : x.val < m.registers.size := by
  rw [h.registers]
  exact x.isLt

/-- No part of an instruction moves the program counter off the addresses. -/
theorem Placed.stable : Stable Placed where
  memory _ _ _ h := { h with }
  registers m x v h := { h with registers := (Array.size_setIfInBounds ..).trans h.registers }
  index _ _ h := { h with }
  counter m a h := { h with counter := ⟨Address.wrap_nonneg a, Address.wrap_lt a⟩ }
  push m target _ h :=
    { h with
      counter := by
        have hlt := target.isLt
        show 0 ≤ ((target.val : Nat) : Int) ∧ ((target.val : Nat) : Int) < 4096
        omega
      returns := fun a ha => by
        rcases Array.mem_or_eq_of_mem_setIfInBounds ha with ha | rfl
        · exact h.returns a ha
        · exact h.counter }
  pop _ _ _ h := { h with }
  resume m a ha h := { h with counter := h.returns a (Array.mem_of_getElem? ha) }
  timer _ _ h := { h with }
  screen _ _ h := { h with }
  waiting _ _ h := { h with }
  halted _ h := { h with }
  cycles _ _ h := { h with }

/-- At the start of the program the counter is an address, and so are the empty cells of the stack.
    -/
theorem Placed.fresh (now : Float) (memory : Array Byte) (screen : Screen) :
    (fresh {} now memory screen).Placed where
  registers := Array.size_replicate
  counter := by
    show (0 : Int) ≤ 0x200 ∧ (0x200 : Int) < 4096
    decide
  returns := fun a ha => by
    rw [Array.eq_of_mem_replicate ha]
    decide

/-- Throughout a session the program counter is an address. -/
theorem Session.placed {latest : Option (Machine × Input)} (h : Session {} latest m) :
    m.Placed := by
  induction h with
  | create now hcreate =>
      rw [eq_initial_of_create hcreate]
      exact Placed.fresh now _ _
  | @load m image _ ih =>
      have hsame := load_sameBut {} image m
      exact
        { registers := (congrArg Array.size (hsame .registers (by decide))).trans ih.registers
          counter := (hsame .counter (by decide)).symm ▸ ih.counter
          returns := (hsame .stack (by decide)).symm ▸ ih.returns }
  | step input _ ih => exact Placed.stable.step {} input ih
  | reset now _ ih => exact Placed.fresh now _ _

/-- Only the instruction that waits for a key touches the flag. -/
theorem step_waiting {m : Machine} (cfg : Config) (input : Input)
    (h : ∀ x, m.next? cfg ≠ some (.awaitKey x)) :
    (m.step cfg input).machine.waiting = m.waiting := by
  refine step_same cfg input m .waiting (by decide) fun i hi hmem => ?_
  cases i with
  | awaitKey x => exact h x hi
  | _ => simp [Instruction.footprint] at hmem

/-- What the flag of a machine says, given the latest step since the last reset. -/
structure Waits (cfg : Config) (latest : Option (Machine × Input)) (m : Machine) : Prop where
  /-- The flag is set exactly if that step was one that waits for a key and found none. -/
  flag : m.waiting = true ↔ ∃ before input x, latest = some (before, input) ∧
    before.next? cfg = some (.awaitKey x) ∧ input.Silent cfg
  /-- Then the machine is not halted, and it is still at the pair of that step. -/
  still : m.waiting = true → m.halted = false ∧ ∃ before input x,
    latest = some (before, input) ∧ before.next? cfg = some (.awaitKey x) ∧
      m.fetched? cfg = before.fetched? cfg ∧ m.next? cfg = some (.awaitKey x)

/-- A machine that has done no step since the last reset does not wait. -/
theorem Waits.of_not_waiting (cfg : Config) (h : m.waiting = false) : m.Waits cfg none where
  flag := by
    rw [h]
    exact ⟨fun hw => (nomatch hw), fun ⟨_, _, _, hlatest, _⟩ => (nomatch hlatest)⟩
  still hw := by
    rw [h] at hw
    cases hw

/-- Without a latest step the flag is clear. -/
theorem Waits.not_waiting {cfg : Config} (h : m.Waits cfg none) : m.waiting = false := by
  refine Bool.eq_false_iff.2 fun hw => ?_
  obtain ⟨_, _, _, hlatest, _⟩ := h.flag.1 hw
  cases hlatest

/-- A step that looks for a key sets the flag or clears it. -/
theorem Waits.step_awaitKey {cfg : Config} {m : Machine} {x : Nibble} (hm : m.Placed)
    (input : Input) (hn : m.next? cfg = some (.awaitKey x)) :
    (m.step cfg input).machine.Waits cfg (some (m, input)) := by
  obtain ⟨pair, hh, hp, hd⟩ := fetched_of_next cfg hn
  by_cases hsilent : input.Silent cfg
  · have hstep := step_awaitKey_silent hh hp hd hm.counter hsilent
    rw [hstep]
    exact ⟨⟨fun _ => ⟨m, input, x, rfl, hn, hsilent⟩, fun _ => rfl⟩,
      fun _ => ⟨hh, m, input, x, rfl, hn, rfl, hn⟩⟩
  · obtain ⟨key, hkey⟩ := Input.exists_least hsilent
    have hstep := step_awaitKey_pressed hh hp hd (hm.register_lt x) hkey
    rw [hstep]
    refine ⟨⟨fun hw => (nomatch hw), ?_⟩, fun hw => (nomatch hw)⟩
    rintro ⟨before, input', x', hlatest, _, hsilent'⟩
    cases hlatest
    exact absurd hsilent' hsilent

/-- Any other step finds the flag clear and leaves it so. -/
theorem Waits.step_other {cfg : Config} {latest : Option (Machine × Input)} {m : Machine}
    (h : m.Waits cfg latest) (input : Input) (hn : ∀ x, m.next? cfg ≠ some (.awaitKey x)) :
    (m.step cfg input).machine.Waits cfg (some (m, input)) := by
  have hclear : m.waiting = false := by
    refine Bool.eq_false_iff.2 fun hw => ?_
    obtain ⟨_, _, _, x, _, _, _, hx⟩ := h.still hw
    exact hn x hx
  have hafter : (m.step cfg input).machine.waiting = false :=
    (step_waiting cfg input hn).trans hclear
  refine ⟨⟨fun hw => ?_, ?_⟩, fun hw => ?_⟩
  · rw [hafter] at hw
    cases hw
  · rintro ⟨before, input', x, hlatest, hx, _⟩
    cases hlatest
    exact absurd hx (hn x)
  · rw [hafter] at hw
    cases hw

/-- In every session the flag says whether the latest step found no key. -/
theorem Session.waits {latest : Option (Machine × Input)} (h : Session {} latest m) :
    m.Waits {} latest := by
  induction h with
  | create now hcreate =>
      rw [eq_initial_of_create hcreate]
      exact Waits.of_not_waiting {} rfl
  | @load m image _ ih =>
      have hsame : (m.load {} image).machine.waiting = m.waiting :=
        load_sameBut {} image m .waiting (by decide)
      exact Waits.of_not_waiting {} (hsame.trans ih.not_waiting)
  | @step latest m input hsession ih =>
      by_cases hn : ∃ x, m.next? {} = some (.awaitKey x)
      · obtain ⟨x, hx⟩ := hn
        exact Waits.step_awaitKey hsession.placed input hx
      · exact ih.step_other input fun x hx => hn ⟨x, hx⟩
  | reset now _ _ => exact Waits.of_not_waiting {} rfl

/-- In every session with the usual configuration the flag of a waiting machine is exact, and at
    the instruction that waits for a key the machine waits without side effects, for as long as
    no key is down. With other configurations and in other states it waits in the same way, if
    the program counter is an address and there is a register for the key. -/
theorem waiting_blocks :
    (∀ {latest : Option (Machine × Input)} {m : Machine}, Session {} latest m →
      m.Waits {} latest ∧ ∀ {pair : Fetched} {x : Nibble},
        m.halted = false → m.fetched? {} = some pair →
        Instruction.decode pair.opcode pair.argument = some (.awaitKey x) → m.Blocks {} pair x) ∧
    ∀ {cfg : Config} {m : Machine} {pair : Fetched} {x : Nibble},
      m.halted = false → m.fetched? cfg = some pair →
      Instruction.decode pair.opcode pair.argument = some (.awaitKey x) →
      0 ≤ m.counter ∧ m.counter < 4096 → x.val < m.registers.size → m.Blocks cfg pair x := by
  refine ⟨fun {latest m} h => ⟨h.waits, fun {pair x} hh hp hd => ?_⟩, blocks_of_awaitKey⟩
  have hplaced := h.placed
  exact blocks_of_awaitKey hh hp hd hplaced.counter (hplaced.register_lt x)

/-- The program `F00A`, twice without a key that the machine knows and then with two of them. -/
theorem waiting_blocks_third_poll :
    let m := ((initial {} 0.0).load {} #[0xF0, 0x0A]).machine
    let silent : Input := ⟨fun key => key == 300, 0.5, 0⟩
    let pressed : Input := ⟨fun key => key == 9 || key == 5, 1.0, 0⟩
    (m.step {} silent).machine.waiting = true ∧
      m.outcomes {} [silent, silent, pressed] =
        [⟨.ok false, { m with waiting := true }, Event.polls 0 16⟩,
          ⟨.ok false, { m with waiting := true }, Event.polls 0 16⟩,
          ⟨.ok true, { m with
            registers := m.registers.setIfInBounds 0 5, counter := 0x202, cycles := 1 },
            Event.polls 0 6⟩] := by
  intro m silent pressed
  have hfits : (#[0xF0, 0x0A] : Array Byte).size ≤ 3584 := by decide
  have hp : m.fetched? {} = some ⟨0x200, 0xF0, 0x0A⟩ :=
    (Valid.initial 0.0).fetched_load hfits (k := 0) (by decide) rfl
  have hd : Instruction.decode 0xF0 0x0A = some (.awaitKey 0) := by decide
  have hsilent : silent.Silent {} := fun key hkey => by
    show ((key : Int) == 300) = false
    have hlt : (key : Int) < 16 := hkey
    simp only [beq_eq_false_iff_ne, ne_eq]
    omega
  have hpressed : ¬ pressed.Silent {} := fun h => by
    have hfive := h 5 (by decide)
    cases hfive
  have hsession : Session {} (some (m, silent)) (m.step {} silent).machine :=
    .step silent (.load #[0xF0, 0x0A] (.create 0.0 (create_usual 0.0)))
  have hnext : m.next? {} = some (.awaitKey 0) := (next?_of_fetched {} rfl hp).trans hd
  refine ⟨(waiting_blocks.1 hsession).1.flag.2 ⟨m, silent, 0, rfl, hnext, hsilent⟩, ?_⟩
  have hblocks := waiting_blocks.2 (m := m) rfl hp hd (by decide) (by decide)
  obtain ⟨key, ⟨_, hdown, hleast⟩, houtcomes, hlast⟩ := hblocks.retries [silent, silent] pressed
    (by simpa using hsilent) hpressed
  obtain rfl : key = 5 := by
    have hkeys : key = 9 ∨ key = 5 := by
      have hdown : ((key : Int) == 9 || (key : Int) == 5) = true := hdown
      simp only [Bool.or_eq_true, beq_iff_eq] at hdown
      omega
    rcases hkeys with rfl | rfl
    · have hfive := hleast 5 (by decide)
      cases hfive
    · rfl
  rw [hlast] at houtcomes
  exact houtcomes

end Machine

end Chip8
