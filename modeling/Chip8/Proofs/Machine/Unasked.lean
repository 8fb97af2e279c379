import Mathlib.Data.List.Forall2
import Chip8.Proofs.Machine.Listed
import Chip8.Proofs.Machine.Restart

/-!
# What the host cannot influence

Five instructions look at what the host offers: two look at keys, one waits for one, one takes a
random number and one reads the delay timer against the clock. As long as none of them is carried
out, a run goes the same way on every host (`Machine.run_unasked`).

Setting the delay timer does not look at the clock, but it stores what the clock shows. So the
machines of two runs are not equal but `Machine.Synced`: their timers may have been set at different
times. A step keeps synced machines synced (`Machine.Synced.step`), because only a read of the timer
would tell them apart.
-/

namespace Chip8

/-- Whether an instruction looks at what the host offers. -/
def Instruction.asksHost : Instruction → Bool
  | .random .. => true
  | .skipKey .. => true
  | .readTimer _ => true
  | .awaitKey _ => true
  | _ => false

/-- An instruction that asks the host for nothing is carried out in the same way on every host,
    unless it stores the clock reading. -/
theorem Effect.execute_unasked (cfg : Config) (input₁ input₂ : Input) (pair : Fetched)
    {i : Instruction} (hasks : i.asksHost = false) (hset : ∀ x, i ≠ .setTimer x) :
    execute cfg input₁ pair i = execute cfg input₂ pair i := by
  cases i with
  | random x mask => cases hasks
  | skipKey down x => cases hasks
  | readTimer x => cases hasks
  | awaitKey x => cases hasks
  | setTimer x => exact absurd rfl (hset x)
  | _ => rfl

namespace Machine

/-- A step that asks the host for nothing is the same on every host, unless it stores the clock
    reading. -/
theorem step_unasked (cfg : Config) {m : Machine} (input₁ input₂ : Input)
    (h : ∀ i, m.next? cfg = some i → i.asksHost = false ∧ ∀ x, i ≠ .setTimer x) :
    m.step cfg input₁ = m.step cfg input₂ := by
  rcases m.ahead cfg with hh | ⟨hh, hp⟩ | ⟨pair, hh, hp, hd⟩ | ⟨pair, i, hh, hp, hd⟩
  · rw [step_of_halted cfg input₁ hh, step_of_halted cfg input₂ hh]
  · obtain ⟨f, -, hr⟩ := Effect.fetchPair_of_not_fetched cfg (p := ⟨m, #[]⟩) hp
    rw [step_of_fetch_fault cfg input₁ hh hr, step_of_fetch_fault cfg input₂ hh hr]
  · rw [step_of_fetched cfg input₁ hh hp, step_of_fetched cfg input₂ hh hp, Effect.executePair,
      Effect.executePair, hd]
  · obtain ⟨hasks, hset⟩ := h i ((next?_of_fetched cfg hh hp).trans hd)
    rw [step_of_fetched cfg input₁ hh hp, step_of_fetched cfg input₂ hh hp, Effect.executePair,
      Effect.executePair, hd]
    dsimp only
    rw [Effect.execute_unasked cfg input₁ input₂ pair hasks hset]

/-- Two machines that are equal except possibly for the time at which the delay timer was set. -/
structure Synced (m₁ m₂ : Machine) : Prop where
  same : m₂ = { m₁ with timer := m₂.timer }
  value : m₂.timer.value = m₁.timer.value

/-- Two outcomes with the same answer or fault and the same events, which leave machines that are
    equal except possibly for the time at which the delay timer was set. -/
structure Lockstep (o₁ o₂ : Outcome Bool) : Prop where
  result : o₂.result = o₁.result
  events : o₂.events = o₁.events
  machine : Synced o₁.machine o₂.machine

namespace Synced

variable {cfg : Config} {m₁ m₂ : Machine}

theorem next? (h : Synced m₁ m₂) : m₂.next? cfg = m₁.next? cfg := by
  rw [h.same]
  rfl

/-- A step that sets the timers sets them to the same value, each at its own time. -/
theorem step_setTimer (h : Synced m₁ m₂) (input₁ input₂ : Input) {x : Nibble}
    (hnext : m₁.next? cfg = some (.setTimer x)) :
    Lockstep (m₁.step cfg input₁) (m₂.step cfg input₂) := by
  obtain ⟨hresult, hevents, hsame, htimers⟩ := step_setTimer_same h.same hnext input₁ input₂
  refine ⟨hresult, hevents, hsame, ?_⟩
  rcases htimers with ⟨v, hset₁, hset₂⟩ | ⟨hkept₁, hkept₂⟩
  · rw [hset₁, hset₂]
    rfl
  · rw [hkept₁, hkept₂]
    exact h.value

/-- A step that asks the host for nothing does the same on synced machines, whatever their hosts
    offer, and they stay synced. -/
theorem step (h : Synced m₁ m₂) (input₁ input₂ : Input)
    (hasks : ∀ i, m₁.next? cfg = some i → i.asksHost = false) :
    Lockstep (m₁.step cfg input₁) (m₂.step cfg input₂) := by
  by_cases hset : ∃ x, m₁.next? cfg = some (.setTimer x)
  · obtain ⟨x, hx⟩ := hset
    exact h.step_setTimer input₁ input₂ hx
  · -- the other host makes no difference, and the other timer is a veil
    have hother : m₂.step cfg input₂ = m₂.step cfg input₁ := by
      refine step_unasked cfg input₂ input₁ fun i hi => ?_
      have hi₁ := h.next?.symm.trans hi
      refine ⟨hasks i hi₁, ?_⟩
      rintro x rfl
      exact hset ⟨x, hi₁⟩
    have hveil := step_veil cfg input₁ ⟨fun _ => m₂.timer, #[]⟩ m₁
      (fun x hx => Bool.noConfusion (hasks _ hx))
      (fun x hx => absurd ⟨x, hx⟩ hset)
    rw [Veil.machine, ← h.same] at hveil
    have htimer : (m₁.step cfg input₁).machine.timer = m₁.timer := by
      refine step_same cfg input₁ m₁ .timer (by decide) fun i hi hmem => hset ?_
      obtain ⟨x, rfl⟩ := Instruction.eq_setTimer_of_mem_footprint hmem
      exact ⟨x, hi⟩
    rw [hother, hveil]
    refine ⟨rfl, rfl, rfl, ?_⟩
    rw [htimer]
    exact h.value

end Synced

/-- Two machines of one configuration that are equal except possibly for the time at which the delay
    timer was set run on two hosts. As long as the first one comes to no instruction that asks the
    host for something, the steps of both answer or fail the same and do the same to their hosts,
    and the machines stay equal except possibly for that time. -/
theorem run_unasked {cfg : Config} {m₁ m₂ : Machine} (h : Synced m₁ m₂)
    {inputs₁ inputs₂ : List Input} (hlength : inputs₁.length = inputs₂.length)
    (hasks : ∀ k < inputs₁.length, ∀ i,
      (m₁.after cfg (inputs₁.take k)).next? cfg = some i → i.asksHost = false) :
    List.Forall₂ Lockstep (m₁.outcomes cfg inputs₁) (m₂.outcomes cfg inputs₂) := by
  induction inputs₁ generalizing m₁ m₂ inputs₂ with
  | nil =>
      obtain rfl : inputs₂ = [] := List.length_eq_zero_iff.1 hlength.symm
      exact List.Forall₂.nil
  | cons input₁ inputs₁ ih =>
      cases inputs₂ with
      | nil => cases hlength
      | cons input₂ inputs₂ =>
          have hstep := h.step input₁ input₂ (hasks 0 (Nat.zero_lt_succ _))
          refine List.Forall₂.cons hstep (ih hstep.machine (Nat.succ.inj hlength) fun k hk => ?_)
          exact hasks (k + 1) (Nat.succ_lt_succ hk)

/-- The program `F115 F118` sets the delay timer and beeps, on one host with the first key down and
    on another one with all keys down, at other times and with other random numbers. -/
theorem run_unasked_timer_set :
    let memory := ((Array.replicate 4096 0xF1).setIfInBounds 0x201 0x15).setIfInBounds 0x203 0x18
    let m₁ : Machine := { initial {} 0.0 with memory := memory }
    let m₂ : Machine := { m₁ with timer := DelayTimer.reset 1.0 }
    List.Forall₂ Lockstep
      (m₁.outcomes {} [⟨fun key => key == 0, 0.5, 3⟩, ⟨fun key => key == 0, 1.5, 4⟩])
      (m₂.outcomes {} [⟨fun _ => true, 2.5, 5⟩, ⟨fun _ => true, 3.5, 6⟩]) := by
  intro memory m₁ m₂
  have hfirst : m₁.next? {} = some (.setTimer 1) := by decide +kernel
  have hsecond : (m₁.step {} ⟨fun key => key == 0, 0.5, 3⟩).machine.next? {} = some (.beep 1) := by
    decide +kernel
  have hsynced : Synced m₁ m₂ := ⟨rfl, rfl⟩
  -- nothing else needs to be known about the two machines
  clear_value m₁ m₂
  refine run_unasked hsynced rfl fun k hk i hi => ?_
  match k, hk with
  | 0, _ =>
      cases hfirst.symm.trans hi
      rfl
  | 1, _ =>
      cases hsecond.symm.trans hi
      rfl

end Machine

end Chip8
