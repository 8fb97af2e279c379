import Mathlib.Data.List.Forall2
import Chip8.Machine.Run
import Chip8.Proofs.Machine.Reachable
import Chip8.Proofs.Machine.Stable
import Chip8.Proofs.Machine.Veil

/-!
# A new start

A reset keeps memory (`Machine.memory_reset`) and nothing else. So what a machine does after it
depends on memory and on what the host offers from then on, and not on anything that happened
before: where the program had come to, whether it waited or was halted, what was on the stack or on
the screen and whether the delay timer was running (`Machine.reset_erases_history`).

Two machines that were reset at different times are not equal, because their timers remember the
time of the reset. They are `Machine.Twins`: the timers may differ as long as both have run down.
Every step keeps twins twins and does the same on both (`Machine.Twins.step`).
-/

namespace Chip8

/-- A timer that has run down shows zero. -/
theorem DelayTimer.read_of_value_zero {frequency : Int} {now : Float} {t : DelayTimer} {n : Nat}
    (hvalue : t.value = 0) (h : ticksBetween frequency t.setTime now = .ok n) :
    t.read frequency now = .ok 0 := by
  rw [read_of_ticks h, hvalue]
  congr 1
  show max 0 ((0 : Int) - n) = 0
  omega

/-- Only one instruction changes the delay timer. -/
theorem Instruction.eq_setTimer_of_mem_footprint {i : Instruction} (h : .timer ∈ i.footprint) :
    ∃ x, i = .setTimer x := by
  cases i with
  | setTimer x => exact ⟨x, rfl⟩
  | _ => simp [footprint] at h

/-- The timer is set to the value of a register, at the time that the host tells. -/
theorem Effect.setTimer_run (cfg : Config) (input : Input) (pair : Fetched) (x : Nibble)
    (p : Progress) :
    (execute cfg input pair (.setTimer x)).run p =
      match p.machine.registers[x.val]? with
      | some v => .ok true ⟨{ p.machine with timer := DelayTimer.start v input.now }, p.events⟩
      | none => .error .outOfRange p := by
  have hexecute : (execute cfg input pair (.setTimer x)).run p = (finish (register x >>= fun v =>
      change fun m => { m with timer := DelayTimer.start v input.now })).run p := rfl
  rw [hexecute, finish_run]
  simp only [register, EStateM.run_bind, run_machine]
  cases p.machine.registers[x.val]? <;> rfl

namespace Machine

/-- Whole ticks have passed since the delay timer was set. -/
def Ticked (cfg : Config) (m : Machine) (now : Float) : Prop :=
  ∃ n : Nat, ticksBetween cfg.timerFrequency m.timer.setTime now = .ok n

/-- In a run on these inputs, whole ticks have passed whenever the delay timer is read. -/
def OnTimes (cfg : Config) : List Input → Machine → Prop
  | [], _ => True
  | input :: inputs, m => OnTime cfg m input ∧ OnTimes cfg inputs (m.step cfg input).machine

/-- Two machines that differ in their timers at most set them to the same value, each at its own
    time, or fail both. -/
theorem step_setTimer_same {cfg : Config} {m₁ m₂ : Machine}
    (hsame : m₂ = { m₁ with timer := m₂.timer }) {x : Nibble}
    (hnext : m₁.next? cfg = some (.setTimer x)) (input₁ input₂ : Input) :
    let out₁ := m₁.step cfg input₁
    let out₂ := m₂.step cfg input₂
    out₂.result = out₁.result ∧ out₂.events = out₁.events ∧
      out₂.machine = { out₁.machine with timer := out₂.machine.timer } ∧
      ((∃ v, out₁.machine.timer = DelayTimer.start v input₁.now ∧
          out₂.machine.timer = DelayTimer.start v input₂.now) ∨
        (out₁.machine.timer = m₁.timer ∧ out₂.machine.timer = m₂.timer)) := by
  intro out₁ out₂
  -- the timer is no part of what is fetched, so both machines carry out the same pair
  have hfetched : m₂.fetched? cfg = m₁.fetched? cfg := by
    rw [hsame]
    rfl
  have hnext₂ : m₂.next? cfg = some (.setTimer x) := by
    rw [hsame]
    exact hnext
  have hadvance : m₂.advance = { m₁.advance with timer := m₂.timer } := by
    rw [advance, hsame]
    rfl
  obtain ⟨pair, hp, hs₁⟩ := step_of_next cfg input₁ hnext
  obtain ⟨pair', hp', hs₂⟩ := step_of_next cfg input₂ hnext₂
  obtain rfl : pair' = pair := Option.some.inj (hp'.symm.trans (hfetched.trans hp))
  rw [Effect.setTimer_run] at hs₁ hs₂
  rw [hadvance] at hs₂
  have hout₁ : out₁ = _ := hs₁
  have hout₂ : out₂ = _ := hs₂
  dsimp only at hout₁ hout₂
  cases hv : m₁.advance.registers[x.val]? with
  | some v =>
      rw [hv] at hout₁ hout₂
      rw [hout₁, hout₂]
      exact ⟨rfl, rfl, rfl, Or.inl ⟨v, rfl, rfl⟩⟩
  | none =>
      rw [hv] at hout₁ hout₂
      rw [hout₁, hout₂]
      exact ⟨rfl, rfl, rfl, Or.inr ⟨rfl, rfl⟩⟩

/-! ## Twins -/

/-- Two machines that differ in their delay timers at most, and then both have run down. -/
structure Twins (m₁ m₂ : Machine) : Prop where
  same : m₂ = { m₁ with timer := m₂.timer }
  timer : m₂.timer = m₁.timer ∨ (m₁.timer.value = 0 ∧ m₂.timer.value = 0)

namespace Twins

variable {cfg : Config} {m₁ m₂ : Machine}

theorem refl (m : Machine) : Twins m m := ⟨rfl, Or.inl rfl⟩

/-- All parts of twins but the timer are the same. -/
theorem sameBut (h : Twins m₁ m₂) : m₁.SameBut [.timer] m₂ := by
  intro part hpart
  rw [h.same]
  cases part <;> first | rfl | exact absurd List.mem_cons_self hpart

/-- The timers show the same. -/
theorem delay (h : Twins m₁ m₂) {now : Float} (h₁ : m₁.Ticked cfg now)
    (h₂ : m₂.Ticked cfg now) : m₂.delay cfg now = m₁.delay cfg now := by
  rcases h.timer with htimer | ⟨hzero₁, hzero₂⟩
  · rw [Machine.delay, Machine.delay, htimer]
  · obtain ⟨n₁, hn₁⟩ := h₁
    obtain ⟨n₂, hn₂⟩ := h₂
    rw [Machine.delay, Machine.delay, DelayTimer.read_of_value_zero hzero₁ hn₁,
      DelayTimer.read_of_value_zero hzero₂ hn₂]

theorem next? (h : Twins m₁ m₂) : m₂.next? cfg = m₁.next? cfg := by
  rw [h.same]
  rfl

/-- A step that sets the timers sets them to the same, or fails on both machines. -/
theorem step_setTimer (h : Twins m₁ m₂) (input : Input) {x : Nibble}
    (hnext : m₁.next? cfg = some (.setTimer x)) :
    (m₂.step cfg input).result = (m₁.step cfg input).result ∧
      (m₂.step cfg input).events = (m₁.step cfg input).events ∧
      Twins (m₁.step cfg input).machine (m₂.step cfg input).machine := by
  obtain ⟨hresult, hevents, hsame, htimers⟩ := step_setTimer_same h.same hnext input input
  refine ⟨hresult, hevents, hsame, ?_⟩
  rcases htimers with ⟨v, hset₁, hset₂⟩ | ⟨hkept₁, hkept₂⟩
  · -- a new timer takes the place of both, so that from here on even the timers are the same
    exact Or.inl (hset₂.trans hset₁.symm)
  · rw [hkept₁, hkept₂]
    exact h.timer

/-- A step does the same on twins, and they stay twins. -/
theorem step (h : Twins m₁ m₂) {input : Input} (h₁ : OnTime cfg m₁ input)
    (h₂ : OnTime cfg m₂ input) :
    (m₂.step cfg input).result = (m₁.step cfg input).result ∧
      (m₂.step cfg input).events = (m₁.step cfg input).events ∧
      Twins (m₁.step cfg input).machine (m₂.step cfg input).machine := by
  rcases h.timer with htimer | ⟨hzero₁, hzero₂⟩
  · -- equal timers make equal machines
    obtain rfl : m₂ = m₁ := by rw [h.same, htimer]
    exact ⟨rfl, rfl, refl _⟩
  by_cases hset : ∃ x, m₁.next? cfg = some (.setTimer x)
  · obtain ⟨x, hx⟩ := hset
    exact h.step_setTimer input hx
  · -- the other timer is a veil that the step does not notice
    have hveil := step_veil cfg input ⟨fun _ => m₂.timer, #[]⟩ m₁
      (fun x hx => by
        rw [Veil.machine, ← h.same]
        exact h.delay (h₁ x hx) (h₂ x (h.next?.trans hx)))
      (fun x hx => absurd ⟨x, hx⟩ hset)
    rw [Veil.machine, ← h.same] at hveil
    rw [hveil]
    refine ⟨rfl, rfl, rfl, Or.inr ⟨?_, hzero₂⟩⟩
    have hsame : (m₁.step cfg input).machine.timer = m₁.timer := by
      refine step_same cfg input m₁ .timer (by decide) fun i hi hmem => hset ?_
      obtain ⟨x, rfl⟩ := Instruction.eq_setTimer_of_mem_footprint hmem
      exact ⟨x, hi⟩
    rw [hsame]
    exact hzero₁

end Twins

/-! ## Outcomes -/

/-- Two outcomes that nobody can tell apart: the same answer or fault, the same events, and
    machines that differ in their delay timers at most, which show the same whenever whole ticks
    have passed since both were set. -/
structure Alike (cfg : Config) (o₁ o₂ : Outcome Bool) : Prop where
  result : o₁.result = o₂.result
  events : o₁.events = o₂.events
  machine : o₁.machine.SameBut [.timer] o₂.machine
  delay : ∀ now, o₁.machine.Ticked cfg now → o₂.machine.Ticked cfg now →
    o₁.machine.delay cfg now = o₂.machine.delay cfg now

/-- Twins cannot be told apart by what comes of them on the same inputs. -/
theorem Twins.outcomes {cfg : Config} {m₁ m₂ : Machine} {inputs : List Input} (h : Twins m₁ m₂)
    (h₁ : OnTimes cfg inputs m₁) (h₂ : OnTimes cfg inputs m₂) :
    List.Forall₂ (Alike cfg) (m₁.outcomes cfg inputs) (m₂.outcomes cfg inputs) := by
  induction inputs generalizing m₁ m₂ with
  | nil => exact List.Forall₂.nil
  | cons input inputs ih =>
      obtain ⟨hresult, hevents, htwins⟩ := h.step h₁.1 h₂.1
      refine List.Forall₂.cons ?_ (ih htwins h₁.2 h₂.2)
      exact ⟨hresult.symm, hevents.symm, htwins.sameBut,
        fun now hn₁ hn₂ => (htwins.delay hn₁ hn₂).symm⟩

/-! ## Reset -/

/-- Machines with the same memory and screens of the same size are twins after a reset. -/
theorem twins_reset {cfg : Config} {m₁ m₂ : Machine} (hmemory : m₁.memory = m₂.memory)
    (hscreen : m₁.screen.cells.size = m₂.screen.cells.size) (now₁ now₂ : Float) :
    Twins (m₁.reset cfg now₁) (m₂.reset cfg now₂) := by
  -- the timers remember when they were reset, but both are at zero
  refine ⟨?_, Or.inr ⟨rfl, rfl⟩⟩
  have hdark : m₁.screen.reset cfg.display = m₂.screen.reset cfg.display := by
    simp only [Screen.reset, Screen.clear, Screen.setExtended, hscreen]
  simp only [reset, fresh, hmemory, hdark]

/-- A machine that can be painted on: its screen has the usual cells, and there is memory to read
    sprites from. -/
structure Paintable (m : Machine) : Prop where
  memory : m.memory.size = 4096
  screen : m.screen.Sound

theorem Paintable.setScreen {m : Machine} (h : m.Paintable) {s : Screen} (hs : s.Sound) :
    Paintable { m with screen := s } := ⟨h.memory, hs⟩

end Machine

namespace Effect

open Machine (Paintable)

theorem setRegister_paintable (x : Nat) (v : Int) : Keeps Paintable (setRegister x v) := by
  refine Keeps.bind Keeps.machine fun m => ?_
  split
  · exact Keeps.change fun m hm => ⟨hm.memory, hm.screen⟩
  · exact Keeps.throw _

/-- Scrolling down keeps a machine paintable. -/
theorem scroll_paintable (n : Nibble) : Keeps Paintable (scroll {} n) := by
  intro p hp
  obtain ⟨s, hs, hsound⟩ := hp.screen.scroll (Int.natCast_nonneg n)
  simp only [scroll, machine, EStateM.run_bind, EStateM.run_get, EStateM.run_pure]
  rw [hs]
  exact ⟨trivial, hp.setScreen hsound⟩

/-- So does drawing, because there is memory to read the sprite from. -/
theorem draw_paintable (x y n : Nibble) : Keeps Paintable (draw {} x y n) := by
  refine Keeps.bind (register_keeps _) fun column => Keeps.bind (register_keeps _) fun line => ?_
  refine Chip8.Upholds.bind Upholds.machine fun m hm => ?_
  have hpos : 0 < m.memory.size := by
    rw [hm.memory]
    decide
  have hpaint : Keeps Paintable (paint (Paint.sprite {} m.memory m.index column line n)) :=
    Upholds.paint (fun _ h => h.screen) (fun _ _ h hs => h.setScreen hs)
      ((Paint.sprite_safe _ _ _ _ hpos).mono (fun _ h => h.elim) fun _ _ => trivial)
  exact Keeps.bind hpaint fun hit => setRegister_paintable _ _

/-- The instructions that change cells of the screen leave one that can be painted on. -/
theorem execute_paintable (input : Input) (pair : Fetched) {i : Instruction}
    (h : .cells ∈ i.footprint) : Keeps Paintable (execute {} input pair i) := by
  cases i with
  | clear => exact finish_keeps (Keeps.change fun m hm => hm.setScreen hm.screen.clear)
  | scroll n => exact finish_keeps (scroll_paintable n)
  | draw x y n => exact finish_keeps (draw_paintable x y n)
  | _ => simp [Instruction.footprint] at h

end Effect

namespace Machine

/-- Every step keeps a machine paintable. -/
theorem Paintable.step {m : Machine} (h : m.Paintable) (input : Input) :
    (m.step {} input).machine.Paintable := by
  refine ⟨(memory_size_stable 4096).step {} input h.memory, ?_⟩
  by_cases hpaints : ∃ i, m.next? {} = some i ∧ .cells ∈ i.footprint
  · obtain ⟨i, hnext, hcells⟩ := hpaints
    obtain ⟨pair, -, hs⟩ := step_of_next {} input hnext
    have hrun := Effect.execute_paintable input pair hcells ⟨m.advance, Effect.traced {} pair⟩
      ⟨h.memory, h.screen⟩
    rw [hs]
    cases hr : (Effect.execute {} input pair i).run ⟨m.advance, Effect.traced {} pair⟩ with
    | error f p =>
        rw [hr] at hrun
        exact hrun.2.screen
    | ok done p =>
        rw [hr] at hrun
        cases done <;> exact hrun.2.screen
  · have hcells : (m.step {} input).machine.screen.cells = m.screen.cells :=
      step_same {} input m .cells (by decide) fun i hi hmem => hpaints ⟨i, hi, hmem⟩
    exact ⟨hcells ▸ h.screen.size, hcells ▸ h.screen.colours⟩

/-- Every reachable machine can be painted on, whatever the host does. -/
theorem Reachable.paintable {admits : Machine → Input → Prop} {m : Machine}
    (h : Reachable {} admits m) : m.Paintable := by
  induction h with
  | create now hcreate =>
      rw [eq_initial_of_create hcreate]
      exact ⟨Array.size_replicate, Screen.blank_sound⟩
  | @load m image _ ih =>
      have hscreen : (m.load {} image).machine.screen.cells = m.screen.cells :=
        load_sameBut {} image m .cells (by decide)
      exact ⟨size_load ih.memory image, hscreen ▸ ih.screen.size, hscreen ▸ ih.screen.colours⟩
  | step input _ _ ih => exact ih.step input
  | @reset m now _ ih =>
      have hmemory : (m.reset {} now).memory.size = 4096 := by rw [memory_reset, ih.memory]
      exact ⟨hmemory, ih.screen.clear.setExtended false⟩

/-! ## The theorem -/

/-- Two reachable machines with the same memory cannot be told apart once they were reset, whatever
    each of them went through before and whenever the resets were: on the same inputs every step
    answers the same and leaves the same machine, but for the delay timers, which show the same.
    The clock must not go back behind a timer that is read. -/
theorem reset_erases_history {admits₁ admits₂ : Machine → Input → Prop} {m₁ m₂ : Machine}
    (h₁ : Reachable {} admits₁ m₁) (h₂ : Reachable {} admits₂ m₂)
    (hmemory : m₁.memory = m₂.memory) (now₁ now₂ : Float) {inputs : List Input}
    (hclock₁ : OnTimes {} inputs (m₁.reset {} now₁))
    (hclock₂ : OnTimes {} inputs (m₂.reset {} now₂)) :
    List.Forall₂ (Alike {}) ((m₁.reset {} now₁).outcomes {} inputs)
      ((m₂.reset {} now₂).outcomes {} inputs) := by
  have hscreen := h₁.paintable.screen.size.trans h₂.paintable.screen.size.symm
  exact (twins_reset hmemory hscreen now₁ now₂).outcomes hclock₁ hclock₂

/-- The program `00FF F107` turns high resolution on and reads the delay timer. One machine has not
    started it yet and is reset at the first second, the other one is in high resolution and is
    reset at the second one. -/
theorem reset_erases_history_resolution :
    let loaded := ((initial {} 0.0).load {} #[0x00, 0xFF, 0xF1, 0x07]).machine
    let used := (loaded.step {} ⟨fun _ => false, 0.5, 0⟩).machine
    let inputs : List Input := [⟨fun _ => false, 3.0, 0⟩, ⟨fun _ => true, 3.5, 0⟩]
    loaded.memory = used.memory ∧
      List.Forall₂ (Alike {}) ((loaded.reset {} 1.0).outcomes {} inputs)
        ((used.reset {} 2.0).outcomes {} inputs) := by
  intro loaded used inputs
  have hfits : (#[0x00, 0xFF, 0xF1, 0x07] : Array Byte).size ≤ 3584 := by decide
  have hp : loaded.fetched? {} = some ⟨0x200, 0x00, 0xFF⟩ :=
    (Valid.initial 0.0).fetched_load hfits (k := 0) (by decide) rfl
  have hd : Instruction.decode 0x00 0xFF = some (.resolution true) := by decide
  have hnext : loaded.next? {} = some (.resolution true) := (next?_of_fetched {} rfl hp).trans hd
  have hmemory : Part.Same loaded used .memory := by
    refine step_same {} ⟨fun _ => false, 0.5, 0⟩ loaded .memory (by decide) fun i hi => ?_
    cases hnext.symm.trans hi
    decide
  have hcounter : 0x200 = loaded.counter :=
    (load_sameBut {} _ (initial {} 0.0) .counter (by decide)).symm
  have hstart : ∀ (m : Machine) now, m.memory = loaded.memory →
      (m.reset {} now).next? {} = some (.resolution true) := by
    intro m now hm
    have hp' : (m.reset {} now).fetched? {} = some ⟨0x200, 0x00, 0xFF⟩ :=
      Eq.trans (fetched?_congr {} hm hcounter) hp
    exact (next?_of_fetched {} rfl hp').trans hd
  have honTimes : ∀ (m : Machine) now, m.memory = loaded.memory →
      (∃ n : Nat, ticksBetween 60 now 3.5 = .ok n) → OnTimes {} inputs (m.reset {} now) := by
    intro m now hm hticks
    refine ⟨fun x hx => ?_, fun x hx => ?_, trivial⟩
    · rw [hstart m now hm] at hx
      cases hx
    · have htimer : ((m.reset {} now).step {} ⟨fun _ => false, 3.0, 0⟩).machine.timer
          = (m.reset {} now).timer := by
        refine step_same {} _ (m.reset {} now) .timer (by decide) fun i hi => ?_
        cases (hstart m now hm).symm.trans hi
        decide
      rw [htimer]
      exact hticks
  have hloaded : Reachable {} (fun _ _ => True) loaded := reachable_loaded _ 0.0 _
  have hused : Reachable {} (fun _ _ => True) used := hloaded.step ⟨fun _ => false, 0.5, 0⟩ trivial
  exact ⟨hmemory.symm, reset_erases_history hloaded hused hmemory.symm 1.0 2.0
    (honTimes loaded 1.0 rfl ⟨150, rfl⟩) (honTimes used 2.0 hmemory ⟨90, rfl⟩)⟩

end Machine

end Chip8
