import Chip8.Proofs.Machine.Step

/-!
# What a step does not see

No instruction looks at what was done to the host before it, and only two have to do with the
delay timer: one sets it, and one reads what it shows. So a step goes the same way after other
events, and on a machine with another timer that shows the same.

  * `Veil`                : another delay timer and other earlier events,
  * `Effect.Blind`        : an effect goes the same way under a veil,
  * `Machine.step_veil`   : a step does, if it does not set the timer and reads nothing else,
  * `Machine.step_answer` : a step is a report of the pair it fetches and the answer to the pair,
  * `Machine.step_trace`  : tracing adds one report to a step, and nothing else.
-/

namespace Chip8

/-- A change that a step may not notice. -/
structure Veil where
  /-- What becomes of the delay timer. -/
  timer : DelayTimer → DelayTimer
  /-- What was done to the host before. -/
  earlier : Array Event

namespace Veil

variable {α : Type} (w : Veil)

/-- The machine with the changed timer. -/
def machine (m : Machine) : Machine := { m with timer := w.timer m.timer }

/-- The machine with the changed timer and the earlier events. -/
def cover (p : Progress) : Progress := ⟨w.machine p.machine, w.earlier ++ p.events⟩

/-- What comes of an effect, under the veil. -/
def result : EStateM.Result Fault Progress α → EStateM.Result Fault Progress α
  | .ok a p => .ok a (w.cover p)
  | .error f p => .error f (w.cover p)

/-- What comes of a step, under the veil. -/
def outcome (out : Outcome α) : Outcome α :=
  ⟨out.result, w.machine out.machine, w.earlier ++ out.events⟩

end Veil

namespace Effect

variable {α β : Type}

/-- The effect does the same under a veil, and the veil stays. -/
def Blind (w : Veil) (eff : Effect α) : Prop :=
  ∀ p, eff.run (w.cover p) = w.result (eff.run p)

section Primitive

variable {w : Veil}

theorem Blind.pure (a : α) : Blind w (pure a : Effect α) := fun _ => rfl

theorem Blind.throw (f : Fault) : Blind w (throw f : Effect α) := fun _ => rfl

theorem Blind.ofExcept (x : Except Fault α) : Blind w (ofExcept x : Effect α) := by
  intro p
  cases x <;> rfl

theorem Blind.bind {eff : Effect α} {next : α → Effect β} (h : Blind w eff)
    (hnext : ∀ a, Blind w (next a)) : Blind w (eff >>= next) := by
  intro p
  rw [EStateM.run_bind, EStateM.run_bind, h p]
  cases hr : eff.run p with
  | ok a p' => exact hnext a p'
  | error f p' => rfl

/-- A look at the machine that does not reach behind the veil. -/
theorem Blind.look {next : Machine → Effect α} (hsame : ∀ m, next (w.machine m) = next m)
    (hnext : ∀ m, Blind w (next m)) : Blind w (machine >>= next) := by
  intro p
  rw [EStateM.run_bind, EStateM.run_bind]
  show (next (w.machine p.machine)).run (w.cover p) = w.result ((next p.machine).run p)
  rw [hsame]
  exact hnext p.machine p

/-- A change is blind if it makes the same of the machine behind the veil. -/
theorem Blind.change {f : Machine → Machine} (h : ∀ m, f (w.machine m) = w.machine (f m)) :
    Blind w (Effect.change f) := by
  intro p
  show EStateM.Result.ok () (⟨f (w.machine p.machine), w.earlier ++ p.events⟩ : Progress) = _
  rw [h]
  rfl

theorem Blind.emit (e : Event) : Blind w (Effect.emit e) := by
  intro p
  show EStateM.Result.ok () (⟨w.machine p.machine, (w.earlier ++ p.events).push e⟩ : Progress) = _
  rw [← Array.append_push]
  rfl

theorem Blind.forM {l : List β} {body : β → Effect Unit} (h : ∀ b, Blind w (body b)) :
    Blind w (l.forM body) := by
  induction l with
  | nil => exact Blind.pure ()
  | cons b l ih => exact Blind.bind (h b) fun _ => ih

theorem register_blind (x : Nat) : Blind w (register x) := by
  refine Blind.look (fun m => rfl) fun m => ?_
  split
  · exact Blind.pure _
  · exact Blind.throw _

theorem setRegister_blind (x : Nat) (v : Int) : Blind w (setRegister x v) := by
  refine Blind.look (fun m => rfl) fun m => ?_
  split
  · exact Blind.change fun m => rfl
  · exact Blind.throw _

theorem fetch_blind (cfg : Config) (address : Int) : Blind w (fetch cfg address) := by
  refine Blind.bind (Blind.ofExcept _) fun place => Blind.look (fun m => rfl) fun m => ?_
  split
  · exact Blind.pure _
  · exact Blind.throw _

theorem store_blind (cfg : Config) (address value : Int) : Blind w (store cfg address value) := by
  refine Blind.bind (Blind.ofExcept _) fun place => ?_
  refine Blind.look (fun m => ?_) fun m => ?_
  · cases Byte.ofInt? value with
    | none => rfl
    | some b =>
        -- the size of memory is part of the type of the position, so each side is rewritten alone
        cases hplace : Cells.position? m.memory.size place with
        | none =>
            have hveiled : Cells.position? (w.machine m).memory.size place = none := hplace
            rw [hveiled]
        | some c =>
            have hveiled : Cells.position? (w.machine m).memory.size place = some c := hplace
            rw [hveiled]
  split
  · exact Blind.change fun m => rfl
  · exact Blind.throw _
  · exact Blind.throw _

theorem setIndex_blind (a : Int) : Blind w (setIndex a) := Blind.change fun _ => rfl

theorem jump_blind (a : Int) : Blind w (jump a) := Blind.change fun _ => rfl

theorem skipIf_blind (condition : Bool) : Blind w (skipIf condition) := by
  rw [skipIf]
  split
  · exact Blind.look (fun m => rfl) fun m => jump_blind _
  · exact Blind.pure _

theorem paint_blind (act : Paint α) : Blind w (paint act) := by
  intro p
  simp only [paint, EStateM.run_bind, EStateM.run_get]
  have hscreen : (w.cover p).machine.screen = p.machine.screen := rfl
  rw [hscreen]
  cases act.run p.machine.screen <;> rfl

theorem finish_blind {eff : Effect Unit} (h : Blind w eff) : Blind w (finish eff) :=
  Blind.bind h fun _ => Blind.pure _

end Primitive

/-! ## The instruction set -/

variable {w : Veil} (cfg : Config) (input : Input) (pair : Fetched)

theorem trap_blind (kind : TrapKind) : Blind w (trap pair kind : Effect α) := by
  refine Blind.bind (Blind.change fun m => rfl) fun _ => ?_
  exact Blind.bind (Blind.emit _) fun _ => Blind.throw _

/-- A call looks at the stack, which is in front of the veil. -/
theorem call_blind (target : Int) : Blind w (call cfg pair target) := by
  refine Blind.look (fun m => rfl) fun m => ?_
  have hpush : Blind w (if m.depth < m.stack.size then
      change fun m => { m with
        stack := m.stack.setIfInBounds m.depth m.counter
        depth := m.depth + 1
        counter := target }
    else
      throw .outOfRange) := by
    split
    · exact Blind.change fun m => rfl
    · exact Blind.throw _
  dsimp only
  split
  · exact Blind.bind (trap_blind pair _) fun _ => hpush
  · exact hpush

theorem ret_blind : Blind w (ret pair) := by
  refine Blind.look (fun m => rfl) fun m => ?_
  split
  · exact trap_blind pair _
  · refine Blind.bind (Blind.change fun m => rfl) fun _ => ?_
    split
    · exact Blind.change fun m => rfl
    · exact Blind.throw _

theorem scroll_blind (n : Int) : Blind w (scroll cfg n) := by
  refine Blind.look (fun m => rfl) fun m => Blind.bind (Blind.ofExcept _) fun s => ?_
  exact Blind.change fun m => rfl

theorem comparand_blind (other : Comparand) : Blind w (comparand other) := by
  cases other with
  | byte nn => exact Blind.pure _
  | register y => exact register_blind _

theorem combine_blind (op : Operator) (x y : Nibble) : Blind w (combine op x y) := by
  refine Blind.bind (register_blind _) fun a => Blind.bind (register_blind _) fun b => ?_
  dsimp only
  split
  · exact Blind.bind (setRegister_blind _ _) fun _ => setRegister_blind _ _
  · exact setRegister_blind _ _

theorem shift_blind (dir : Shift) (x : Nibble) : Blind w (shift dir x) := by
  refine Blind.bind (register_blind _) fun a => ?_
  exact Blind.bind (setRegister_blind _ _) fun _ => setRegister_blind _ _

theorem random_blind (x : Nibble) (mask : Byte) : Blind w (random input x mask) :=
  Blind.bind (Blind.emit _) fun _ => setRegister_blind _ _

theorem draw_blind (x y n : Nibble) : Blind w (draw cfg x y n) := by
  refine Blind.bind (register_blind _) fun column => ?_
  refine Blind.bind (register_blind _) fun line => Blind.look (fun m => rfl) fun m => ?_
  exact Blind.bind (paint_blind _) fun hit => setRegister_blind _ _

theorem pollKey_blind (key : Int) : Blind w (pollKey input key) :=
  Blind.bind (Blind.emit _) fun _ => Blind.pure _

theorem firstPressed_blind (key n : Nat) : Blind w (firstPressed input key n) := by
  induction n generalizing key with
  | zero => exact Blind.pure _
  | succ n ih =>
      refine Blind.bind (pollKey_blind input _) fun pressed => ?_
      split
      · exact Blind.pure _
      · exact ih (key + 1)

theorem awaitKey_blind (x : Nibble) : Blind w (awaitKey cfg input x) := by
  refine Blind.bind (firstPressed_blind input _ _) fun key => ?_
  cases key with
  | some key =>
      refine Blind.bind (setRegister_blind _ _) fun _ => ?_
      exact Blind.bind (Blind.change fun m => rfl) fun _ => Blind.pure _
  | none =>
      refine Blind.bind (Blind.change fun m => rfl) fun _ => Blind.look (fun m => rfl) fun m => ?_
      exact Blind.bind (jump_blind _) fun _ => Blind.pure _

theorem storeDigits_blind (x : Nibble) : Blind w (storeDigits cfg x) := by
  refine Blind.bind (register_blind _) fun v => Blind.look (fun m => rfl) fun m => ?_
  refine Blind.bind (store_blind cfg _ _) fun _ => ?_
  exact Blind.bind (store_blind cfg _ _) fun _ => store_blind cfg _ _

theorem storeRegisters_blind (x : Nibble) : Blind w (storeRegisters cfg x) := by
  refine Blind.forM fun k => Blind.bind (register_blind _) fun v => ?_
  refine Blind.look (fun m => rfl) fun m => ?_
  exact Blind.bind (store_blind cfg _ _) fun _ => setIndex_blind _

theorem loadRegisters_blind (x : Nibble) : Blind w (loadRegisters cfg x) := by
  refine Blind.forM fun k => Blind.look (fun m => rfl) fun m => ?_
  refine Blind.bind (fetch_blind cfg _) fun b => ?_
  exact Blind.bind (setRegister_blind _ _) fun _ => setIndex_blind _

/-- An instruction sees nothing behind a veil, except that two of them have to do with the timer. -/
theorem execute_blind (i : Instruction) (hread : ∀ x, i ≠ .readTimer x)
    (hset : ∀ x, i = .setTimer x → w.timer = id) : Blind w (execute cfg input pair i) := by
  cases i with
  | clear => exact finish_blind (Blind.change fun m => rfl)
  | ret => exact finish_blind (ret_blind pair)
  | resolution high => exact finish_blind (Blind.change fun m => rfl)
  | scroll n => exact finish_blind (scroll_blind cfg n)
  | jump target => exact finish_blind (jump_blind _)
  | call target => exact finish_blind (call_blind cfg pair _)
  | skip equal x other =>
      refine finish_blind (Blind.bind (register_blind _) fun a => ?_)
      exact Blind.bind (comparand_blind other) fun b => skipIf_blind _
  | load x nn => exact finish_blind (setRegister_blind _ _)
  | add x nn =>
      exact finish_blind (Blind.bind (register_blind _) fun a => setRegister_blind _ _)
  | combine op x y => exact finish_blind (combine_blind op x y)
  | shift dir x => exact finish_blind (shift_blind dir x)
  | index target => exact finish_blind (setIndex_blind _)
  | jumpOffset base =>
      exact finish_blind (Blind.bind (register_blind _) fun a => jump_blind _)
  | random x mask => exact finish_blind (random_blind input x mask)
  | draw x y n => exact finish_blind (draw_blind cfg x y n)
  | skipKey down x =>
      refine finish_blind (Blind.bind (register_blind _) fun a => ?_)
      exact Blind.bind (pollKey_blind input _) fun pressed => skipIf_blind _
  | readTimer x => exact absurd rfl (hread x)
  | awaitKey x => exact awaitKey_blind cfg input x
  | setTimer x =>
      refine finish_blind (Blind.bind (register_blind _) fun v => Blind.change fun m => ?_)
      rw [Veil.machine, Veil.machine, hset x rfl]
      rfl
  | beep x => exact finish_blind (Blind.emit _)
  | advanceIndex x =>
      refine finish_blind (Blind.bind (register_blind _) fun v => ?_)
      exact Blind.look (fun m => rfl) fun m => setIndex_blind _
  | glyph x =>
      exact finish_blind (Blind.bind (register_blind _) fun v => setIndex_blind _)
  | storeDigits x => exact finish_blind (storeDigits_blind cfg x)
  | storeRegisters x => exact finish_blind (storeRegisters_blind cfg x)
  | loadRegisters x => exact finish_blind (loadRegisters_blind cfg x)

/-- A read of the delay timer does not see a veil under which the timer shows the same. -/
theorem readTimer_veil {p : Progress} (x : Nibble)
    (h : (w.machine p.machine).delay cfg input.now = p.machine.delay cfg input.now) :
    (execute cfg input pair (.readTimer x)).run (w.cover p)
      = w.result ((execute cfg input pair (.readTimer x)).run p) := by
  have hlook : ∀ q : Progress, (execute cfg input pair (.readTimer x)).run q
      = (finish (ofExcept (q.machine.delay cfg input.now) >>= fun v => setRegister x v)).run q :=
    fun _ => rfl
  rw [hlook, hlook, Veil.cover, h]
  exact finish_blind (Blind.bind (Blind.ofExcept _) fun v => setRegister_blind _ _) p

/-- A pair sees nothing behind a veil, except that two instructions have to do with the timer. -/
theorem executePair_veil {p : Progress}
    (hread : ∀ x, Instruction.decode pair.opcode pair.argument = some (.readTimer x) →
      (w.machine p.machine).delay cfg input.now = p.machine.delay cfg input.now)
    (hset : ∀ x, Instruction.decode pair.opcode pair.argument = some (.setTimer x) →
      w.timer = id) :
    (executePair cfg input pair).run (w.cover p)
      = w.result ((executePair cfg input pair).run p) := by
  rw [executePair]
  cases hi : Instruction.decode pair.opcode pair.argument with
  | none => exact trap_blind pair _ p
  | some i =>
      by_cases hx : ∃ x, i = .readTimer x
      · obtain ⟨x, rfl⟩ := hx
        exact readTimer_veil cfg input pair x (hread x hi)
      · refine execute_blind cfg input pair i (fun x he => hx ⟨x, he⟩) (fun x he => ?_) p
        exact hset x (hi.trans (congrArg some he))

/-- Fetching looks at memory and at the program counter only. -/
theorem fetchPair_blind : Blind w (fetchPair cfg) := by
  refine Blind.look (fun m => rfl) fun m => Blind.bind (fetch_blind cfg _) fun opcode => ?_
  refine Blind.bind (fetch_blind cfg _) fun argument => ?_
  exact Blind.bind (jump_blind _) fun _ => Blind.pure _

/-- What a step makes of an executed instruction is seen through the veil. -/
theorem settle_veil (w : Veil) (r : EStateM.Result Fault Progress Bool) :
    settle (w.result r) = w.outcome (settle r) := by
  cases r with
  | ok done p => cases done <;> rfl
  | error f p => rfl

end Effect

namespace Machine

variable (cfg : Config) (input : Input)

/-- The pair ahead is the same behind a veil. -/
theorem fetched?_veil (w : Veil) (m : Machine) : (w.machine m).fetched? cfg = m.fetched? cfg := rfl

/-- A step on a machine with another delay timer goes the same way, unless its instruction sets
    the timer, or reads it and sees a difference. -/
theorem step_veil (w : Veil) (m : Machine)
    (hread : ∀ x, m.next? cfg = some (.readTimer x) →
      (w.machine m).delay cfg input.now = m.delay cfg input.now)
    (hset : ∀ x, m.next? cfg = some (.setTimer x) → w.timer = id) :
    (w.machine m).step cfg input =
      ⟨(m.step cfg input).result, w.machine (m.step cfg input).machine,
        (m.step cfg input).events⟩ := by
  cases hh : m.halted with
  | true =>
      have hveiled : (w.machine m).halted = true := hh
      rw [step_of_halted cfg input hveiled, step_of_halted cfg input hh]
  | false =>
      have hveiled : (w.machine m).halted = false := hh
      cases hp : m.fetched? cfg with
      | none =>
          obtain ⟨f, _, hr⟩ := Effect.fetchPair_of_not_fetched cfg (p := ⟨m, #[]⟩) hp
          have hr' := Effect.fetchPair_blind (w := ⟨w.timer, #[]⟩) cfg ⟨m, #[]⟩
          rw [hr] at hr'
          rw [step_of_fetch_fault cfg input hveiled hr', step_of_fetch_fault cfg input hh hr]
      | some pair =>
          have hnext := next?_of_fetched cfg hh hp
          -- both steps start without events, so the veil adds none
          have hcover : (⟨w.timer, #[]⟩ : Veil).cover ⟨m.advance, Effect.traced cfg pair⟩
              = ⟨(w.machine m).advance, Effect.traced cfg pair⟩ :=
            congrArg (Progress.mk _) Array.empty_append
          have hpair := Effect.executePair_veil (w := ⟨w.timer, #[]⟩) cfg input pair
            (p := ⟨m.advance, Effect.traced cfg pair⟩)
            (fun x hx => hread x (hnext.trans hx)) (fun x hx => hset x (hnext.trans hx))
          rw [hcover] at hpair
          rw [step_of_fetched cfg input hveiled ((fetched?_veil cfg w m).trans hp), hpair,
            Effect.settle_veil, step_of_fetched cfg input hh hp]
          exact congrArg (Outcome.mk _ _) Array.empty_append

/-- What a step makes of a byte pair: it is carried out with the program counter behind it, and
    counted if it is done. -/
def answer (pair : Fetched) (m : Machine) : Outcome Bool :=
  Effect.settle ((Effect.executePair cfg input pair).run ⟨m.advance, #[]⟩)

/-- A step reports the pair that it fetches, if it is traced, and answers to it. -/
theorem step_answer {m : Machine} {pair : Fetched} (hh : m.halted = false)
    (hp : m.fetched? cfg = some pair) :
    m.step cfg input =
      ⟨(m.answer cfg input pair).result, (m.answer cfg input pair).machine,
        Effect.traced cfg pair ++ (m.answer cfg input pair).events⟩ := by
  -- the report is what was done to the host before the pair is executed
  let w : Veil := ⟨id, Effect.traced cfg pair⟩
  have hcover : w.cover ⟨m.advance, #[]⟩ = ⟨m.advance, Effect.traced cfg pair⟩ :=
    congrArg (Progress.mk _) Array.append_empty
  have hpair := Effect.executePair_veil (w := w) cfg input pair (p := ⟨m.advance, #[]⟩)
    (fun _ _ => rfl) (fun _ _ => rfl)
  rw [hcover] at hpair
  rw [step_of_fetched cfg input hh hp, hpair, Effect.settle_veil]
  rfl

/-- Executing a pair has nothing to do with tracing. -/
theorem executePair_trace (report : Bool) (pair : Fetched) :
    Effect.executePair { cfg with trace := report } input pair
      = Effect.executePair cfg input pair := by
  unfold Effect.executePair
  cases Instruction.decode pair.opcode pair.argument with
  | none => rfl
  | some i => cases i <;> rfl

/-- Tracing reports the pair that is fetched before anything else, and that is all it does. -/
theorem step_trace (report : Bool) {m : Machine} {pair : Fetched} (hh : m.halted = false)
    (hp : m.fetched? cfg = some pair) :
    m.step { cfg with trace := report } input =
      ⟨(m.step { cfg with trace := false } input).result,
        (m.step { cfg with trace := false } input).machine,
        Effect.traced { cfg with trace := report } pair ++
          (m.step { cfg with trace := false } input).events⟩ := by
  have hanswer : ∀ report, m.answer { cfg with trace := report } input pair
      = m.answer cfg input pair := by
    intro report
    rw [answer, answer, executePair_trace]
  have hquiet : Effect.traced { cfg with trace := false } pair = #[] := rfl
  rw [step_answer { cfg with trace := report } input hh hp,
    step_answer { cfg with trace := false } input hh hp, hanswer report, hanswer false]
  dsimp only
  rw [hquiet, Array.empty_append]

end Machine

end Chip8
