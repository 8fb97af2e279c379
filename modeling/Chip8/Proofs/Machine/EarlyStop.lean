import Chip8.Proofs.Machine.Waiting

/-!
# Ending a run early

A run ends before its time when the program waits for a key that is not down. The keys are held
all the time, so nothing would come of the steps that are left out: a step that executes nothing
leaves a machine that rests (`Machine.rests_of_not_done`), whether it waits or is halted, and a
machine at rest stays as it is.

  * `Machine.Anchored` : going back over an instruction leads to the same two bytes,
  * `Machine.Rests`    : no step does anything while the keys stay as they are,
  * `Run.Agrees`       : two runs end alike, whatever they did to the keys and the log,
  * `Run.final?`       : the run at its end, from which another run can go on.
-/

namespace Chip8

/-! ## Events that draw no random number -/

namespace Event

theorem draws_append (first second : Array Event) :
    draws (first ++ second) = draws first + draws second := Array.countP_append

/-- Looking at keys draws no random number. -/
theorem draws_polls (key n : Nat) : draws (polls key n) = 0 := by
  rw [draws, Array.countP_eq_zero]
  intro e he
  obtain ⟨k, -, rfl⟩ : ∃ k ∈ List.range' key n, Event.polled (k : Nat) = e := by
    simpa [polls] using he
  exact Bool.false_ne_true

theorem draws_push_logged (events : Array Event) (msg : Message) :
    draws (events.push (.logged msg)) = draws events := by
  rw [draws, Array.countP_push]
  rfl

end Event

theorem Effect.draws_traced (cfg : Config) (pair : Fetched) :
    Event.draws (Effect.traced cfg pair) = 0 := by
  rw [Effect.traced]
  split <;> rfl

/-! ## Steps that execute nothing -/

namespace Effect

variable (cfg : Config) (input : Input) (pair : Fetched)

/-- An effect after which the instruction is done does not ask for another try. -/
theorem finish_ne_not_done {eff : Effect Unit} {p p' : Progress} :
    (finish eff).run p ≠ .ok false p' := by
  rw [finish_run]
  intro h
  split at h <;> cases h

/-- A register that does not exist cannot be written. -/
theorem setRegister_run_lost {p : Progress} {x : Nat} (v : Int)
    (h : ¬ x < p.machine.registers.size) :
    (setRegister x v).run p = .error .outOfRange p := by
  simp only [setRegister, machine, EStateM.run_bind, EStateM.run_get, EStateM.run_pure, if_neg h]
  rfl

/-- A key that is down cannot be put into a register that is not there. -/
theorem awaitKey_run_lost {p : Progress} {x : Nibble} (hx : ¬ x.val < p.machine.registers.size)
    (h : ¬ input.Silent cfg) :
    ∃ p', (awaitKey cfg input x).run p = .error .outOfRange p' := by
  obtain ⟨key, hknown, hdown, hleast⟩ := Input.exists_least h
  have hsome : (firstPressed input 0 cfg.keyCount.toNat).run p
      = .ok (some (0 + key)) ⟨p.machine, p.events ++ Event.polls 0 (key + 1)⟩ :=
    firstPressed_run_pressed input (by omega) (by rwa [Nat.zero_add]) (by rwa [Nat.zero_add])
  have hlost := setRegister_run_lost
    (p := ⟨p.machine, p.events ++ Event.polls 0 (key + 1)⟩) (0 + key : Nat) hx
  refine ⟨⟨p.machine, p.events ++ Event.polls 0 (key + 1)⟩, ?_⟩
  simp only [awaitKey, EStateM.run_bind, hsome, hlost]

/-- A key that is down ends the wait, or there is no register for it. -/
theorem silent_of_not_done {x : Nibble} {p p' : Progress}
    (h : (awaitKey cfg input x).run p = .ok false p') : input.Silent cfg := by
  by_contra hsilent
  by_cases hx : x.val < p.machine.registers.size
  · obtain ⟨key, hkey⟩ := Input.exists_least hsilent
    rw [awaitKey_run_pressed cfg input hx hkey] at h
    cases h
  · obtain ⟨p'', hlost⟩ := awaitKey_run_lost cfg input hx hsilent
    rw [hlost] at h
    cases h

/-- Only the instruction that waits for a key can be left undone. -/
theorem awaitKey_of_not_done {i : Instruction} {p p' : Progress}
    (h : (execute cfg input pair i).run p = .ok false p') :
    (∃ x, i = .awaitKey x) ∧ input.Silent cfg := by
  cases i with
  | awaitKey x => exact ⟨⟨x, rfl⟩, silent_of_not_done cfg input h⟩
  | _ => exact absurd h finish_ne_not_done

end Effect

namespace Machine

variable {cfg : Config} {m : Machine}

theorem cycles_not_mem_footprint (i : Instruction) : .cycles ∉ i.footprint := by
  cases i <;> simp [Instruction.footprint]

/-- The machine counts the instructions that are executed to the end. -/
theorem step_cycles (cfg : Config) (input : Input) (m : Machine) :
    ((m.step cfg input).result = .ok true → (m.step cfg input).machine.cycles = m.cycles + 1) ∧
      ((m.step cfg input).result ≠ .ok true → (m.step cfg input).machine.cycles = m.cycles) := by
  cases hn : m.next? cfg with
  | none =>
      obtain ⟨hresult, hsame⟩ := step_of_not_next cfg input hn
      exact ⟨fun h => absurd h hresult, fun _ => hsame .cycles (by decide)⟩
  | some i =>
      obtain ⟨pair, -, hs⟩ := step_of_next cfg input hn
      have hi := Effect.execute_confined cfg input pair i m.advance
        ⟨m.advance, Effect.traced cfg pair⟩ (SameBut.refl _ _)
      rw [hs]
      cases hr : (Effect.execute cfg input pair i).run ⟨m.advance, Effect.traced cfg pair⟩ with
      | error f p =>
          rw [hr] at hi
          exact ⟨fun h => (nomatch h), fun _ => hi.2 .cycles (cycles_not_mem_footprint i)⟩
      | ok done p =>
          rw [hr] at hi
          have hsame : p.machine.cycles = m.cycles := hi.2 .cycles (cycles_not_mem_footprint i)
          cases done with
          | true => exact ⟨fun _ => congrArg (· + 1) hsame, fun h => absurd rfl h⟩
          | false => exact ⟨fun h => (nomatch h), fun _ => hsame⟩

/-- Going back over an instruction leads to the same two bytes: addresses wrap where memory
    does, or the program counter is an address and returns lead to addresses. -/
def Anchored (cfg : Config) (m : Machine) : Prop :=
  cfg.memorySize ∣ 4096 ∨
    (0 ≤ m.counter ∧ m.counter < 4096) ∧ ∀ a ∈ m.stack, 0 ≤ a ∧ a < 4096

/-- No part of an instruction takes a machine off its anchor. -/
theorem Anchored.stable (cfg : Config) : Stable (Anchored cfg) where
  memory _ _ _ h := h
  registers _ _ _ h := h
  index _ _ h := h
  counter _ a h := h.imp_right fun h => ⟨⟨Address.wrap_nonneg a, Address.wrap_lt a⟩, h.2⟩
  push _ target _ h := by
    refine h.imp_right fun h => ⟨?_, fun a ha => ?_⟩
    · have hlt := target.isLt
      show 0 ≤ ((target.val : Nat) : Int) ∧ ((target.val : Nat) : Int) < 4096
      omega
    · rcases Array.mem_or_eq_of_mem_setIfInBounds ha with ha | rfl
      · exact h.2 a ha
      · exact h.1
  pop _ _ _ h := h
  resume _ a ha h := h.imp_right fun h => ⟨h.2 a (Array.mem_of_getElem? ha), h.2⟩
  timer _ _ h := h
  screen _ _ h := h
  waiting _ _ h := h
  halted _ h := h
  cycles _ _ h := h

/-- Addresses that differ by rounds of the address space name the same cell. -/
theorem modulo_wrap (h : cfg.memorySize ∣ 4096) (a k : Int) :
    Fault.modulo (Address.wrap a + k) cfg.memorySize = Fault.modulo (a + k) cfg.memorySize := by
  have hsame : (Address.wrap a + k) % cfg.memorySize = (a + k) % cfg.memorySize := by
    rw [Address.wrap, Int.add_emod, Int.emod_emod_of_dvd a h, ← Int.add_emod]
  have hdvd : cfg.memorySize ∣ Address.wrap a + k ↔ cfg.memorySize ∣ a + k := by
    rw [Int.dvd_iff_emod_eq_zero, Int.dvd_iff_emod_eq_zero, hsame]
  simp only [Fault.modulo, Int.fmod_eq_emod, hsame, hdvd]

/-- The same two bytes stand at the program counter when it is wrapped. -/
theorem Anchored.fetched? (h : m.Anchored cfg) (waiting : Bool) {pair : Fetched}
    (hp : m.fetched? cfg = some pair) :
    Machine.fetched? cfg { m with waiting := waiting, counter := Address.wrap m.counter }
      = some { pair with address := Address.wrap m.counter } := by
  have hbyte : ∀ k, m.byteAt? cfg (Address.wrap m.counter + k) = m.byteAt? cfg (m.counter + k) := by
    intro k
    rcases h with hdvd | ⟨hcounter, -⟩
    · rw [byteAt?, byteAt?, modulo_wrap hdvd]
    · rw [Address.wrap, Int.emod_eq_of_lt hcounter.1 hcounter.2]
  have hopcode := hbyte 0
  have hargument := hbyte 1
  rw [Int.add_zero, Int.add_zero] at hopcode
  simp only [Machine.fetched?, Option.bind_eq_bind, Option.bind_eq_some_iff] at hp
  obtain ⟨opcode, ho, argument, ha, hp⟩ := hp
  cases hp
  show (do
    let opcode ← m.byteAt? cfg (Address.wrap m.counter)
    let argument ← m.byteAt? cfg (Address.wrap m.counter + 1)
    return (⟨Address.wrap m.counter, opcode, argument⟩ : Fetched)) = _
  rw [hopcode, hargument, ho, ha]
  rfl

/-- No step does anything to the machine or to the random numbers while the keys stay as they
    are. -/
def Rests (cfg : Config) (pressed : Int → Bool) (m : Machine) : Prop :=
  ∀ input : Input, input.pressed = pressed →
    ∃ events, Event.draws events = 0 ∧ m.step cfg input = ⟨.ok false, m, events⟩

/-- A halted machine rests, whatever the keys are. -/
theorem rests_of_halted (pressed : Int → Bool) (h : m.halted = true) : m.Rests cfg pressed :=
  fun input _ => ⟨#[], rfl, step_of_halted cfg input h⟩

/-- A machine at an instruction that waits for a key rests while none is down, if it waits
    already. -/
theorem rests_of_awaitKey {pair : Fetched} {x : Nibble} {input : Input} (hh : m.halted = false)
    (hp : m.fetched? cfg = some pair)
    (hd : Instruction.decode pair.opcode pair.argument = some (.awaitKey x))
    (hcounter : 0 ≤ m.counter ∧ m.counter < 4096) (hwaiting : m.waiting = true)
    (hsilent : input.Silent cfg) : m.Rests cfg input.pressed := by
  intro later hsame
  have hlater : later.Silent cfg := fun key hkey => (congrFun hsame key).trans (hsilent key hkey)
  have hwaits : { m with waiting := true } = m := by rw [← hwaiting]
  have hstep := step_awaitKey_silent hh hp hd hcounter hlater
  rw [hwaits] at hstep
  refine ⟨_, ?_, hstep⟩
  rw [Event.draws_append, Effect.draws_traced, Event.draws_polls]

/-- A step that executes nothing leaves a machine at rest. -/
theorem rests_of_not_done {input : Input} (h : m.Anchored cfg)
    (hdone : (m.step cfg input).result = .ok false) :
    (m.step cfg input).machine.Rests cfg input.pressed := by
  rcases m.ahead cfg with hh | ⟨hh, hp⟩ | ⟨pair, hh, hp, hd⟩ | ⟨pair, i, hh, hp, hd⟩
  · rw [step_of_halted cfg input hh]
    exact rests_of_halted _ hh
  · obtain ⟨f, -, hs⟩ := step_of_not_fetched cfg input hh hp
    rw [hs] at hdone
    cases hdone
  · rw [step_of_fetched cfg input hh hp, Effect.executePair, hd] at hdone
    cases hdone
  · rw [step_of_fetched cfg input hh hp, Effect.executePair, hd] at hdone ⊢
    dsimp only at hdone ⊢
    obtain ⟨⟨x, rfl⟩, hsilent⟩ : (∃ x, i = .awaitKey x) ∧ input.Silent cfg := by
      cases hr : (Effect.execute cfg input pair i).run ⟨m.advance, Effect.traced cfg pair⟩ with
      | error f p =>
          rw [hr] at hdone
          cases hdone
      | ok done p =>
          rw [hr] at hdone
          cases done with
          | true => cases hdone
          | false => exact Effect.awaitKey_of_not_done cfg input pair hr
    -- the machine is back at the instruction, up to rounds of the address space
    have hback : Address.wrap (Address.wrap (m.counter + 2) - 2) = Address.wrap m.counter := by
      simp only [Address.wrap]
      omega
    have hrun := Effect.awaitKey_run_silent cfg input
      (p := ⟨m.advance, Effect.traced cfg pair⟩) x hsilent
    replace hrun : (Effect.execute cfg input pair (.awaitKey x)).run
        ⟨m.advance, Effect.traced cfg pair⟩ = .ok false
          ⟨{ m with
              waiting := true
              counter := Address.wrap (Address.wrap (m.counter + 2) - 2) }, _⟩ := hrun
    rw [hrun, hback]
    exact rests_of_awaitKey (m := { m with waiting := true, counter := Address.wrap m.counter })
      hh (h.fetched? true hp) hd ⟨Address.wrap_nonneg _, Address.wrap_lt _⟩ rfl hsilent

end Machine

/-! ## Runs and steps -/

namespace Run

variable {cfg : Config} {host : Host}

/-- Two runs end alike, except for what they reported and which keys they looked at. -/
structure Agrees (out out' : Outcome Nat) : Prop where
  result : out.result = out'.result
  machine : out.machine = out'.machine
  /-- As many random numbers were drawn. -/
  draws : Event.draws out.events = Event.draws out'.events

theorem Agrees.refl (out : Outcome Nat) : Agrees out out := ⟨rfl, rfl, rfl⟩

theorem Agrees.symm {out out' : Outcome Nat} (h : Agrees out out') : Agrees out' out :=
  ⟨h.result.symm, h.machine.symm, h.draws.symm⟩

theorem Agrees.trans {out₁ out₂ out₃ : Outcome Nat} (h : Agrees out₁ out₂)
    (h' : Agrees out₂ out₃) : Agrees out₁ out₃ :=
  ⟨h.result.trans h'.result, h.machine.trans h'.machine, h.draws.trans h'.draws⟩

theorem draws_extend (r : Run) (m : Machine) (events : Array Event) (done : Bool) :
    Event.draws (r.extend m events done).events = Event.draws r.events + Event.draws events :=
  Event.draws_append ..

/-- One more report makes no difference to how a run ends. -/
theorem Agrees.of_push_logged (r : Run) (m : Machine) (events : Array Event) (msg : Message)
    (done : Bool) :
    Agrees (r.extend m (events.push (.logged msg)) done).outcome
      (r.extend m events done).outcome := by
  refine ⟨rfl, rfl, ?_⟩
  show Event.draws (r.extend m _ done).events = Event.draws (r.extend m _ done).events
  rw [draws_extend, draws_extend, Event.draws_push_logged]

/-- A step that fails ends a row of steps. -/
theorem steps_of_error {n : Nat} {r : Run} {f : Fault}
    (h : (r.machine.step cfg (host.input r.turns r.draws)).result = .error f) :
    steps cfg host (n + 1) r =
      ⟨.error f, (r.machine.step cfg (host.input r.turns r.draws)).machine,
        r.events ++ (r.machine.step cfg (host.input r.turns r.draws)).events⟩ := by
  simp only [steps, h]

/-- A row of steps goes on behind a step that does not fail. -/
theorem steps_of_ok {n : Nat} {r : Run} {done : Bool}
    (h : (r.machine.step cfg (host.input r.turns r.draws)).result = .ok done) :
    steps cfg host (n + 1) r =
      steps cfg host n (r.extend (r.machine.step cfg (host.input r.turns r.draws)).machine
        (r.machine.step cfg (host.input r.turns r.draws)).events done) := by
  simp only [steps, h]

/-- Steps of a machine at rest lead nowhere. -/
theorem steps_of_rests (n : Nat) {r : Run} (h : r.machine.Rests cfg host.pressed) :
    Agrees (steps cfg host n r) r.outcome := by
  induction n generalizing r with
  | zero => exact Agrees.refl _
  | succ n ih =>
      obtain ⟨events, hdraws, hs⟩ := h (host.input r.turns r.draws) rfl
      have hdone : (r.machine.step cfg (host.input r.turns r.draws)).result = .ok false := by
        rw [hs]
      rw [steps_of_ok hdone, hs]
      refine (ih (r := r.extend r.machine events false) h).trans ⟨rfl, rfl, ?_⟩
      show Event.draws (r.extend r.machine events false).events = Event.draws r.events
      rw [draws_extend, hdraws, Nat.add_zero]

/-- Steps keep what every single step keeps. -/
theorem steps_keeps {inv : Machine → Prop} (hinv : Machine.Stable inv) (n : Nat) {r : Run}
    (h : inv r.machine) : inv (steps cfg host n r).machine := by
  induction n generalizing r with
  | zero => exact h
  | succ n ih =>
      have hnext := hinv.step cfg (host.input r.turns r.draws) h
      cases hr : (r.machine.step cfg (host.input r.turns r.draws)).result with
      | error f =>
          rw [steps_of_error hr]
          exact hnext
      | ok done =>
          rw [steps_of_ok hr]
          exact ih hnext

/-- A turn whose step fails ends the run with the same fault. -/
theorem turn_of_error {input : Input} {pause : Option Fault} {r : Run} {f : Fault}
    (h : (r.machine.step cfg input).result = .error f) :
    r.turn cfg input pause = .faulted f (r.extend (r.machine.step cfg input).machine
      (r.machine.step cfg input).events false) := by
  simp only [turn, h]

/-- A turn that executes nothing on a machine that waits ends the run. -/
theorem turn_of_stop {input : Input} {pause : Option Fault} {r : Run}
    (h : (r.machine.step cfg input).result = .ok false)
    (hwaiting : (r.machine.step cfg input).machine.waiting = true) :
    r.turn cfg input pause = .stopped (r.extend (r.machine.step cfg input).machine
      ((r.machine.step cfg input).events.push
        (.logged (.stuck (r.machine.step cfg input).machine.counter))) false) := by
  simp only [turn, h, hwaiting, Bool.not_false, Bool.and_self, if_true]

/-- Any other turn without a pause goes on with the run. -/
theorem turn_of_more {input : Input} {r : Run} {done : Bool}
    (h : (r.machine.step cfg input).result = .ok done)
    (hgo : ¬ (done = false ∧ (r.machine.step cfg input).machine.waiting = true)) :
    r.turn cfg input none = .more (r.extend (r.machine.step cfg input).machine
      (r.machine.step cfg input).events done) := by
  have hif : ¬ (!done && (r.machine.step cfg input).machine.waiting) = true := by
    simpa using hgo
  simp only [turn, h, if_neg hif]

/-- A run that ends early ends like all the steps that it may take. -/
theorem finish_agrees (n : Nat) {r : Run} (h : r.machine.Anchored cfg) :
    Agrees (finish cfg host none n r) (steps cfg host n r) := by
  induction n generalizing r with
  | zero => exact Agrees.refl _
  | succ n ih =>
      rw [finish]
      cases hr : (r.machine.step cfg (host.input r.turns r.draws)).result with
      | error f =>
          rw [turn_of_error hr, steps_of_error hr]
          exact Agrees.refl _
      | ok done =>
          rw [steps_of_ok hr]
          by_cases hstop : done = false ∧
              (r.machine.step cfg (host.input r.turns r.draws)).machine.waiting = true
          · -- the run ends here, and the steps that are left lead nowhere
            obtain ⟨rfl, hwaiting⟩ := hstop
            rw [turn_of_stop hr hwaiting]
            refine Agrees.trans (Agrees.of_push_logged ..)
              (steps_of_rests n (Machine.rests_of_not_done h hr)).symm
          · rw [turn_of_more hr hstop]
            exact ih ((Machine.Anchored.stable cfg).step cfg _ h)

/-- The number of executed instructions is what the machine counted meanwhile. -/
theorem steps_cycles {n count : Nat} {r : Run} (h : (steps cfg host n r).result = .ok count) :
    (steps cfg host n r).machine.cycles + r.retired = r.machine.cycles + count := by
  induction n generalizing r with
  | zero =>
      obtain rfl : r.retired = count := Except.ok.inj h
      rfl
  | succ n ih =>
      cases hr : (r.machine.step cfg (host.input r.turns r.draws)).result with
      | error f =>
          rw [steps_of_error hr] at h
          cases h
      | ok done =>
          rw [steps_of_ok hr] at h ⊢
          have hcount := ih h
          obtain ⟨hdone, hleft⟩ :=
            Machine.step_cycles cfg (host.input r.turns r.draws) r.machine
          cases done with
          | true =>
              have hcycles := hdone hr
              simp only [extend, if_true] at hcount ⊢
              omega
          | false =>
              have hcycles := hleft (by rw [hr]; exact fun hne => (nomatch hne))
              simp only [extend, Bool.false_eq_true, if_false] at hcount ⊢
              omega

/-- Steps that end with a fault do so at one of them. -/
theorem exists_of_error {n : Nat} {r : Run} {f : Fault}
    (h : (steps cfg host n r).result = .error f) :
    ∃ k < n, (∃ count, (steps cfg host k r).result = .ok count) ∧
      (steps cfg host (k + 1) r).result = .error f := by
  induction n generalizing r with
  | zero => cases h
  | succ n ih =>
      cases hr : (r.machine.step cfg (host.input r.turns r.draws)).result with
      | error f' =>
          rw [steps_of_error hr] at h
          refine ⟨0, Nat.succ_pos n, ⟨r.retired, rfl⟩, ?_⟩
          rw [steps_of_error hr]
          exact h
      | ok done =>
          rw [steps_of_ok hr] at h
          obtain ⟨k, hk, ⟨count, hcount⟩, hlast⟩ := ih h
          refine ⟨k + 1, Nat.succ_lt_succ hk, ⟨count, ?_⟩, ?_⟩
          · rw [steps_of_ok hr]
            exact hcount
          · rw [steps_of_ok hr]
            exact hlast

/-! ## A run after a run -/

/-- The run at its end, if no fault ends it. -/
def final? (cfg : Config) (host : Host) (pause : Option Fault) : Nat → Run → Option Run
  | 0, r => some r
  | n + 1, r =>
    match r.turn cfg (host.input r.turns r.draws) pause with
    | .more r => final? cfg host pause n r
    | .stopped r => some r
    | .faulted _ _ => none

/-- A run that ends without a fault has an end. -/
theorem exists_final {pause : Option Fault} {n count : Nat} {r : Run}
    (h : (finish cfg host pause n r).result = .ok count) :
    ∃ r', final? cfg host pause n r = some r' ∧ finish cfg host pause n r = r'.outcome := by
  induction n generalizing r with
  | zero => exact ⟨r, rfl, rfl⟩
  | succ n ih =>
      rw [finish] at h ⊢
      rw [final?]
      cases ht : r.turn cfg (host.input r.turns r.draws) pause with
      | more r' =>
          rw [ht] at h
          exact ih h
      | stopped r' => exact ⟨r', rfl, rfl⟩
      | faulted f r' =>
          rw [ht] at h
          cases h

/-- The steps of a run and those behind its end are all steps together. -/
theorem steps_add {first : Nat} (second : Nat) {r r' : Run} (h : r.machine.Anchored cfg)
    (hfinal : final? cfg host none first r = some r') :
    Agrees (steps cfg host (first + second) r) (steps cfg host second r') := by
  induction first generalizing r with
  | zero =>
      cases hfinal
      rw [Nat.zero_add]
      exact Agrees.refl _
  | succ first ih =>
      rw [final?] at hfinal
      rw [Nat.succ_add]
      cases hr : (r.machine.step cfg (host.input r.turns r.draws)).result with
      | error f =>
          rw [turn_of_error hr] at hfinal
          cases hfinal
      | ok done =>
          rw [steps_of_ok hr]
          by_cases hstop : done = false ∧
              (r.machine.step cfg (host.input r.turns r.draws)).machine.waiting = true
          · obtain ⟨rfl, hwaiting⟩ := hstop
            rw [turn_of_stop hr hwaiting] at hfinal
            cases hfinal
            -- neither the steps left out nor those of the second run lead anywhere
            have hrests := Machine.rests_of_not_done h hr
            exact (steps_of_rests _ hrests).trans
              ((Agrees.of_push_logged ..).symm.trans (steps_of_rests second hrests).symm)
          · rw [turn_of_more hr hstop] at hfinal
            exact ih ((Machine.Anchored.stable cfg).step cfg _ h) hfinal

variable (cfg host) in
/-- Steps in the middle of a run are the steps of a run that starts there. -/
theorem steps_after {t d c n : Nat} {r s : Run} (hm : r.machine = s.machine)
    (ht : r.turns = t + s.turns) (hd : r.draws = d + s.draws) (hc : r.retired = c + s.retired) :
    (steps cfg host n r).machine = (steps cfg (host.after t d) n s).machine ∧
      (steps cfg host n r).result = (steps cfg (host.after t d) n s).result.map (c + ·) ∧
      Event.draws (steps cfg host n r).events + Event.draws s.events
        = Event.draws r.events + Event.draws (steps cfg (host.after t d) n s).events := by
  induction n generalizing r s with
  | zero =>
      refine ⟨hm, ?_, rfl⟩
      show Except.ok r.retired = Except.ok (c + s.retired)
      rw [hc]
  | succ n ih =>
      -- the host counts on from where the first run has come to, so both runs get the same input
      have hinput : (host.after t d).input s.turns s.draws = host.input r.turns r.draws := by
        rw [ht, hd]
        rfl
      cases hr : (r.machine.step cfg (host.input r.turns r.draws)).result with
      | error f =>
          have hs := hr
          rw [hm, ← hinput] at hs
          rw [steps_of_error hr, steps_of_error hs, hinput, hm]
          refine ⟨rfl, rfl, ?_⟩
          simp only [Event.draws_append]
          omega
      | ok done =>
          have hs := hr
          rw [hm, ← hinput] at hs
          rw [steps_of_ok hr, steps_of_ok hs, hinput, hm]
          obtain ⟨hmachine, hresult, hdraws⟩ := ih
            (r := r.extend (s.machine.step cfg (host.input r.turns r.draws)).machine
              (s.machine.step cfg (host.input r.turns r.draws)).events done)
            (s := s.extend (s.machine.step cfg (host.input r.turns r.draws)).machine
              (s.machine.step cfg (host.input r.turns r.draws)).events done)
            rfl (congrArg (· + 1) ht) (by simp only [extend, hd, Nat.add_assoc])
            (by cases done <;> simp [extend, hc, Nat.add_assoc])
          refine ⟨hmachine, hresult, ?_⟩
          rw [draws_extend, draws_extend] at hdraws
          omega

end Run

/-- How the runs of a machine compare with the steps that they may take. -/
structure Machine.RunsLikeSteps (cfg : Config) (host : Host) (m : Machine) : Prop where
  /-- A run leaves the machine and the random numbers as all its steps would, fails as they
      would, and otherwise counts those of them that executed an instruction. A negative number
      of steps counts as none. -/
  agrees : ∀ steps : Int,
    Run.Agrees (m.run cfg host none steps) (m.steps cfg host steps.toNat)
  /-- If one of the steps fails, the run fails in that same step. -/
  faults : ∀ (steps : Int) (f : Fault), (m.steps cfg host steps.toNat).result = .error f →
    ∃ k < steps.toNat,
      (∃ count, (m.steps cfg host k).result = .ok count ∧
        (m.run cfg host none k).result = .ok count) ∧
      (m.steps cfg host (k + 1)).result = .error f ∧
      (m.run cfg host none (k + 1 : Nat)).result = .error f
  /-- The count of a run is what the machine counted meanwhile. -/
  cycles : ∀ (steps : Int) (count : Nat), (m.run cfg host none steps).result = .ok count →
    (m.run cfg host none steps).machine.cycles = m.cycles + count
  /-- A run after a run that did not fail, on the same host, is one long run. -/
  continues : ∀ first second count : Nat, (m.run cfg host none first).result = .ok count →
    ∃ r, Run.final? cfg host none first (Run.start m) = some r ∧
      m.run cfg host none first = r.outcome ∧
      let next := r.machine.run cfg (host.after r.turns r.draws) none second
      let whole := m.run cfg host none (first + second : Nat)
      whole.machine = next.machine ∧ whole.result = next.result.map (count + ·) ∧
        Event.draws whole.events = Event.draws r.events + Event.draws next.events

namespace Machine

/-- The early end of a run makes no difference. With a memory that wraps where addresses do, as
    the usual one, this holds of every machine; with another memory the program counter and the
    return addresses have to be addresses. -/
theorem run_early_stop {cfg : Config} {m : Machine} (host : Host)
    (h : cfg.memorySize ∣ 4096 ∨
      (0 ≤ m.counter ∧ m.counter < 4096) ∧ ∀ a ∈ m.stack, 0 ≤ a ∧ a < 4096) :
    m.RunsLikeSteps cfg host := by
  have hanchored : m.Anchored cfg := h
  have hagrees : ∀ steps : Int,
      Run.Agrees (m.run cfg host none steps) (m.steps cfg host steps.toNat) :=
    fun steps => Run.finish_agrees steps.toNat hanchored
  refine ⟨hagrees, fun steps f hf => ?_, fun steps count hcount => ?_,
    fun first second count hcount => ?_⟩
  · obtain ⟨k, hk, ⟨count, hcount⟩, hlast⟩ := Run.exists_of_error hf
    exact ⟨k, hk, ⟨count, hcount, (hagrees k).result.trans hcount⟩, hlast,
      (hagrees (k + 1 : Nat)).result.trans hlast⟩
  · have hsteps := Run.steps_cycles ((hagrees steps).result.symm.trans hcount)
    rw [(hagrees steps).machine]
    exact hsteps
  · obtain ⟨r, hfinal, hrun⟩ := Run.exists_final hcount
    replace hrun : m.run cfg host none first = r.outcome := hrun
    have hretired : r.retired = count := by
      rw [hrun] at hcount
      exact Except.ok.inj hcount
    have hfirst : r.machine.Anchored cfg := by
      have hmachine : r.machine = (m.steps cfg host first).machine :=
        (congrArg Outcome.machine hrun).symm.trans (hagrees first).machine
      rw [hmachine]
      exact Run.steps_keeps (Anchored.stable cfg) first hanchored
    refine ⟨r, hfinal, hrun, ?_⟩
    -- both sides are compared with all their steps
    have hwhole := (hagrees (first + second : Nat)).trans (Run.steps_add second hanchored hfinal)
    have hnext : Run.Agrees (r.machine.run cfg (host.after r.turns r.draws) none second)
        (r.machine.steps cfg (host.after r.turns r.draws) second) :=
      Run.finish_agrees second hfirst
    obtain ⟨hmachine, hresult, hdraws⟩ := Run.steps_after cfg host
      (n := second) (r := r) (s := Run.start r.machine) rfl rfl rfl rfl
    refine ⟨hwhole.machine.trans (hmachine.trans hnext.machine.symm), ?_, ?_⟩
    · rw [hwhole.result, hresult, ← hretired]
      exact congrArg _ hnext.result.symm
    · rw [hwhole.draws]
      exact hdraws.trans (congrArg (Event.draws r.events + ·) hnext.draws.symm)

/-- The program `6A6A F00A` waits for a key in its second step, so a run of a thousand steps is
    over after two of them. -/
theorem run_early_stop_second_step :
    let m := { initial {} 0.0 with
      memory := ((Array.replicate 4096 0x6A).setIfInBounds 0x202 0xF0).setIfInBounds 0x203 0x0A }
    let host : Host := ⟨fun key => key == 300, fun _ => 0.0, fun _ => 7⟩
    (m.run {} host none 1000).result = .ok 1 ∧ (m.steps {} host 1000).result = .ok 1 ∧
      (m.steps {} host 1000).machine.cycles = 1 ∧
      (m.steps {} host 1000).machine = (m.run {} host none 1000).machine := by
  intro m host
  have hlike : m.RunsLikeSteps {} host := run_early_stop host (Or.inl (by decide))
  have hrun : (m.run {} host none 1000).result = .ok 1 := by decide +kernel
  have hagrees := hlike.agrees 1000
  rw [show (1000 : Int).toNat = 1000 from rfl] at hagrees
  refine ⟨hrun, hagrees.result.symm.trans hrun, ?_, hagrees.machine.symm⟩
  rw [← hagrees.machine]
  exact hlike.cycles 1000 1 hrun

end Machine

end Chip8
