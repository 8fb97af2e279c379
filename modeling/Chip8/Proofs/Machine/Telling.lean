import Chip8.Proofs.Machine.Trap

/-!
# What a step tells the host

`Instruction.MayTell` says which events an instruction may cause: two instructions look at keys, one
asks for a random number and one beeps. Nothing else happens unless the instruction traps, and this
does not depend on whether it is executed to the end, has to be tried again or fails on the way.

  * `Effect.Adds`         : whatever an effect does to the host is of one kind,
  * `Effect.execute_told` : an instruction that does not trap does what it may do,
  * `Machine.step_told`   : a step reports the pair it fetches if it is traced, and its trap.
-/

namespace Chip8

/-- What an instruction that does not trap may do to the host. -/
def Instruction.MayTell : Instruction → Event → Prop
  | .random .., e => e = .drew 0 Byte.limit
  | .skipKey .., e => ∃ key, e = .polled key
  | .awaitKey _, e => ∃ key, e = .polled key
  | .beep _, e => e = .beeped
  | _, _ => False

/-- No instruction reports anything of its own accord. -/
theorem Instruction.not_mayTell_logged (i : Instruction) (msg : Message) :
    ¬ i.MayTell (.logged msg) := by
  intro h
  cases i with
  | skipKey down x =>
      obtain ⟨key, hkey⟩ := h
      cases hkey
  | awaitKey x =>
      obtain ⟨key, hkey⟩ := h
      cases hkey
  | _ => cases h

namespace Effect

variable {α β : Type} {kind : Event → Prop}

/-- Whatever the effect does to the host is of one kind, also if it fails. -/
def Adds (kind : Event → Prop) (eff : Effect α) : Prop :=
  ∀ earlier : Array Event, Chip8.Upholds
    (fun p : Progress => ∃ added, p.events = earlier ++ added ∧ ∀ e ∈ added, kind e)
    (fun _ => True) (fun _ => True) eff

/-- What was done to the host when an effect ended. -/
def told : EStateM.Result Fault Progress α → Array Event
  | .ok _ p => p.events
  | .error _ p => p.events

/-- What an effect adds stands behind all that was done to the host before. -/
theorem Adds.run {eff : Effect α} (h : Adds kind eff) (p : Progress) :
    ∃ added, told (eff.run p) = p.events ++ added ∧ ∀ e ∈ added, kind e := by
  have hrun := h p.events p ⟨#[], Array.append_empty.symm, fun e he => absurd he (by simp)⟩
  cases hr : eff.run p with
  | ok a p' =>
      rw [hr] at hrun
      exact hrun.2
  | error f p' =>
      rw [hr] at hrun
      exact hrun.2

section Primitive

theorem Adds.pure (a : α) : Adds kind (pure a : Effect α) := fun _ => Chip8.Upholds.pure trivial

theorem Adds.throw (f : Fault) : Adds kind (throw f : Effect α) :=
  fun _ => Chip8.Upholds.throw trivial

theorem Adds.ofExcept (x : Except Fault α) : Adds kind (ofExcept x : Effect α) :=
  fun _ => Chip8.Upholds.ofExcept_any fun _ _ => trivial

theorem Adds.bind {eff : Effect α} {next : α → Effect β} (h : Adds kind eff)
    (hnext : ∀ a, Adds kind (next a)) : Adds kind (eff >>= next) :=
  fun earlier => Chip8.Upholds.bind (h earlier) fun a _ => hnext a earlier

theorem Adds.machine : Adds kind Effect.machine := by
  intro earlier p hp
  exact ⟨trivial, hp⟩

theorem Adds.change (f : Machine → Machine) : Adds kind (Effect.change f) := by
  intro earlier p hp
  exact ⟨trivial, hp⟩

theorem Adds.emit {e : Event} (he : kind e) : Adds kind (Effect.emit e) := by
  rintro earlier p ⟨added, hevents, hadded⟩
  refine ⟨trivial, added.push e, ?_, fun e' he' => ?_⟩
  · show p.events.push e = earlier ++ added.push e
    rw [hevents, Array.append_push]
  · rcases Array.mem_push.1 he' with he' | rfl
    · exact hadded e' he'
    · exact he

theorem Adds.forM {l : List β} {body : β → Effect Unit} (h : ∀ b, Adds kind (body b)) :
    Adds kind (l.forM body) :=
  fun earlier => Chip8.Upholds.forM fun b _ => h b earlier

theorem Adds.paint (act : Paint α) : Adds kind (paint act) := by
  intro earlier p hp
  simp only [Effect.paint, EStateM.run_bind, EStateM.run_get]
  cases act.run p.machine.screen with
  | ok a s => exact ⟨trivial, hp⟩
  | error f s => exact ⟨trivial, hp⟩

theorem register_adds (x : Nat) : Adds kind (register x) := by
  refine Adds.bind Adds.machine fun m => ?_
  split
  · exact Adds.pure _
  · exact Adds.throw _

theorem setRegister_adds (x : Nat) (v : Int) : Adds kind (setRegister x v) := by
  refine Adds.bind Adds.machine fun m => ?_
  split
  · exact Adds.change _
  · exact Adds.throw _

theorem fetch_adds (cfg : Config) (address : Int) : Adds kind (fetch cfg address) := by
  refine Adds.bind (Adds.ofExcept _) fun place => Adds.bind Adds.machine fun m => ?_
  split
  · exact Adds.pure _
  · exact Adds.throw _

theorem store_adds (cfg : Config) (address value : Int) : Adds kind (store cfg address value) := by
  refine Adds.bind (Adds.ofExcept _) fun place => Adds.bind Adds.machine fun m => ?_
  split
  · exact Adds.change _
  · exact Adds.throw _
  · exact Adds.throw _

theorem skipIf_adds (condition : Bool) : Adds kind (skipIf condition) := by
  rw [skipIf]
  split
  · exact Adds.bind Adds.machine fun m => Adds.change _
  · exact Adds.pure _

theorem finish_adds {eff : Effect Unit} (h : Adds kind eff) : Adds kind (finish eff) :=
  Adds.bind h fun _ => Adds.pure _

end Primitive

/-! ## The instruction set -/

variable (cfg : Config) (input : Input) (pair : Fetched)

theorem scroll_adds (n : Int) : Adds kind (scroll cfg n) :=
  Adds.bind Adds.machine fun _ => Adds.bind (Adds.ofExcept _) fun _ => Adds.change _

theorem comparand_adds (other : Comparand) : Adds kind (comparand other) := by
  cases other with
  | byte nn => exact Adds.pure _
  | register y => exact register_adds _

theorem combine_adds (op : Operator) (x y : Nibble) : Adds kind (combine op x y) := by
  refine Adds.bind (register_adds _) fun a => Adds.bind (register_adds _) fun b => ?_
  dsimp only
  split
  · exact Adds.bind (setRegister_adds _ _) fun _ => setRegister_adds _ _
  · exact setRegister_adds _ _

theorem shift_adds (dir : Shift) (x : Nibble) : Adds kind (shift dir x) := by
  refine Adds.bind (register_adds _) fun a => ?_
  exact Adds.bind (setRegister_adds _ _) fun _ => setRegister_adds _ _

theorem draw_adds (x y n : Nibble) : Adds kind (draw cfg x y n) := by
  refine Adds.bind (register_adds _) fun column => Adds.bind (register_adds _) fun line => ?_
  refine Adds.bind Adds.machine fun m => ?_
  exact Adds.bind (Adds.paint _) fun hit => setRegister_adds _ _

/-- A key that is looked at is all that is added. -/
theorem pollKey_adds (hkind : ∀ key, kind (.polled key)) (key : Int) :
    Adds kind (pollKey input key) :=
  Adds.bind (Adds.emit (hkind key)) fun _ => Adds.pure _

/-- The search for a key adds nothing but looks at keys. -/
theorem firstPressed_adds (hkind : ∀ key, kind (.polled key)) (key n : Nat) :
    Adds kind (firstPressed input key n) := by
  induction n generalizing key with
  | zero => exact Adds.pure _
  | succ n ih =>
      refine Adds.bind (pollKey_adds input hkind _) fun pressed => ?_
      split
      · exact Adds.pure _
      · exact ih (key + 1)

/-- Waiting for a key adds what the search for it adds. -/
theorem awaitKey_adds (hkind : ∀ key, kind (.polled key)) (x : Nibble) :
    Adds kind (awaitKey cfg input x) := by
  refine Adds.bind (firstPressed_adds input hkind _ _) fun key => ?_
  cases key with
  | some key =>
      refine Adds.bind (setRegister_adds _ _) fun _ => ?_
      exact Adds.bind (Adds.change _) fun _ => Adds.pure _
  | none =>
      refine Adds.bind (Adds.change _) fun _ => Adds.bind Adds.machine fun m => ?_
      exact Adds.bind (Adds.change _) fun _ => Adds.pure _

theorem storeDigits_adds (x : Nibble) : Adds kind (storeDigits cfg x) := by
  refine Adds.bind (register_adds _) fun v => Adds.bind Adds.machine fun m => ?_
  refine Adds.bind (store_adds cfg _ _) fun _ => ?_
  exact Adds.bind (store_adds cfg _ _) fun _ => store_adds cfg _ _

theorem storeRegisters_adds (x : Nibble) : Adds kind (storeRegisters cfg x) := by
  refine Adds.forM fun k => Adds.bind (register_adds _) fun v => Adds.bind Adds.machine fun m => ?_
  exact Adds.bind (store_adds cfg _ _) fun _ => Adds.change _

theorem loadRegisters_adds (x : Nibble) : Adds kind (loadRegisters cfg x) := by
  refine Adds.forM fun k => Adds.bind Adds.machine fun m => Adds.bind (fetch_adds cfg _) fun b => ?_
  exact Adds.bind (setRegister_adds _ _) fun _ => Adds.change _

/-- All that an instruction does to the host, unless it is one that may trap. -/
theorem execute_adds {i : Instruction} (h : i.links = false) :
    Adds i.MayTell (execute cfg input pair i) := by
  cases i with
  | clear => exact finish_adds (Adds.change _)
  | ret => cases h
  | resolution high => exact finish_adds (Adds.change _)
  | scroll n => exact finish_adds (scroll_adds cfg n)
  | jump target => exact finish_adds (Adds.change _)
  | call target => cases h
  | skip equal x other =>
      refine finish_adds (Adds.bind (register_adds _) fun a => ?_)
      exact Adds.bind (comparand_adds other) fun b => skipIf_adds _
  | load x nn => exact finish_adds (setRegister_adds _ _)
  | add x nn => exact finish_adds (Adds.bind (register_adds _) fun a => setRegister_adds _ _)
  | combine op x y => exact finish_adds (combine_adds op x y)
  | shift dir x => exact finish_adds (shift_adds dir x)
  | index target => exact finish_adds (Adds.change _)
  | jumpOffset base => exact finish_adds (Adds.bind (register_adds _) fun a => Adds.change _)
  | random x mask => exact finish_adds (Adds.bind (Adds.emit rfl) fun _ => setRegister_adds _ _)
  | draw x y n => exact finish_adds (draw_adds cfg x y n)
  | skipKey down x =>
      refine finish_adds (Adds.bind (register_adds _) fun a => ?_)
      exact Adds.bind (pollKey_adds input (fun key => ⟨key, rfl⟩) _) fun pressed => skipIf_adds _
  | readTimer x =>
      refine finish_adds (Adds.bind Adds.machine fun m => ?_)
      exact Adds.bind (Adds.ofExcept _) fun v => setRegister_adds _ _
  | awaitKey x => exact awaitKey_adds cfg input (fun key => ⟨key, rfl⟩) x
  | setTimer x => exact finish_adds (Adds.bind (register_adds _) fun v => Adds.change _)
  | beep x => exact finish_adds (Adds.emit rfl)
  | advanceIndex x =>
      refine finish_adds (Adds.bind (register_adds _) fun v => ?_)
      exact Adds.bind Adds.machine fun m => Adds.change _
  | glyph x => exact finish_adds (Adds.bind (register_adds _) fun v => Adds.change _)
  | storeDigits x => exact finish_adds (storeDigits_adds cfg x)
  | storeRegisters x => exact finish_adds (storeRegisters_adds cfg x)
  | loadRegisters x => exact finish_adds (loadRegisters_adds cfg x)

/-- That an instruction is done is nothing that the host is told. -/
theorem told_finish (eff : Effect Unit) (p : Progress) :
    told ((finish eff).run p) = told (eff.run p) := by
  rw [finish_run]
  cases eff.run p <;> rfl

/-- A call that does not trap tells the host nothing. -/
theorem call_told {p : Progress} (target : Int) (h : ¬ cfg.stackSize ≤ p.machine.depth) :
    told ((call cfg pair target).run p) = p.events := by
  by_cases hcell : p.machine.depth < p.machine.stack.size
  · rw [call_run_room cfg pair target h hcell]
    rfl
  · rw [call_run_lost cfg pair target h hcell]
    rfl

/-- A return that does not trap tells the host nothing. -/
theorem ret_told {p : Progress} (h : p.machine.depth ≠ 0) :
    told ((ret pair).run p) = p.events := by
  obtain ⟨depth, hdepth⟩ := Nat.exists_eq_succ_of_ne_zero h
  rw [ret_run_pending pair hdepth]
  cases p.machine.stack[depth]? <;> rfl

/-- An instruction that does not trap does what it may do to the host, and nothing else. -/
theorem execute_told {i : Instruction} {p : Progress} (h : i.trap? cfg p.machine.depth = none) :
    ∃ added, told ((execute cfg input pair i).run p) = p.events ++ added ∧
      ∀ e ∈ added, i.MayTell e := by
  have hnothing : ∀ {eff : Effect Unit}, told (eff.run p) = p.events →
      ∃ added, told ((finish eff).run p) = p.events ++ added ∧ ∀ e ∈ added, i.MayTell e :=
    fun htold => ⟨#[], (told_finish _ p).trans (htold.trans Array.append_empty.symm),
      fun e he => absurd he (by simp)⟩
  cases hlinks : i.links with
  | false => exact (execute_adds cfg input pair hlinks).run p
  | true =>
      cases i with
      | call target =>
          rw [Instruction.trap?_call] at h
          split at h
          · cases h
          · rename_i hroom
            exact hnothing (call_told cfg pair target hroom)
      | ret =>
          rw [Instruction.trap?_ret] at h
          split at h
          · cases h
          · rename_i hpending
            exact hnothing (ret_told pair hpending)
      | _ => cases hlinks

theorem settle_events (r : EStateM.Result Fault Progress Bool) : (settle r).events = told r := by
  cases r with
  | ok done p => cases done <;> rfl
  | error f p => rfl

end Effect

namespace Machine

variable (cfg : Config) (input : Input)

/-- Unless it traps, a step does what its instruction may do to the host, after reporting the pair
    that it fetches if it is traced. -/
theorem step_told {m : Machine} {pair : Fetched} (hh : m.halted = false)
    (hp : m.fetched? cfg = some pair) (h : m.trap? cfg = none) :
    ∃ i added, m.next? cfg = some i ∧
      (m.step cfg input).events = Effect.traced cfg pair ++ added ∧ ∀ e ∈ added, i.MayTell e := by
  cases hd : Instruction.decode pair.opcode pair.argument with
  | none =>
      rw [trap?_of_fetched cfg hh hp, hd] at h
      cases h
  | some i =>
      have hnext := (next?_of_fetched cfg hh hp).trans hd
      rw [trap?_of_next cfg hnext] at h
      obtain ⟨added, htold, hadded⟩ := Effect.execute_told cfg input pair (i := i)
        (p := ⟨m.advance, Effect.traced cfg pair⟩) h
      refine ⟨i, added, hnext, ?_, hadded⟩
      rw [step_of_fetched cfg input hh hp, Effect.executePair, hd, Effect.settle_events]
      exact htold

end Machine

end Chip8
