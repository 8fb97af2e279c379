import Chip8.Proofs.Machine.Trap

/-!
# Calls and returns

An observer sees which instructions a machine executes to the end, and nothing of its stack. The
observer keeps a list of return addresses: a call appends the address behind it, a return removes
the last one. Throughout a run the machine's stack is this list, so a return always continues
behind the call that it matches, whatever the program does in between.

  * `Observed`             : a machine with the observer's list,
  * `Observed.Faithful`    : the stack is the list, which every step preserves,
  * `Observed.Disciplined` : what calls and returns do on an observed machine.
-/

namespace Chip8

namespace Instruction

/-- What an instruction at an address does to a list of return addresses, the oldest first. -/
def track (address : Int) (calls : List Int) : Instruction → List Int
  | .call _ => calls ++ [Address.wrap (address + 2)]
  | .ret => calls.dropLast
  | _ => calls

theorem track_call (address : Int) (calls : List Int) (target : Address) :
    (call target).track address calls = calls ++ [Address.wrap (address + 2)] := rfl

theorem track_ret (address : Int) (calls : List Int) : ret.track address calls = calls.dropLast :=
  rfl

/-- Only calls and returns change the list. -/
theorem track_of_not_links {i : Instruction} (h : i.links = false) (address : Int)
    (calls : List Int) : i.track address calls = calls := by
  cases i with
  | call target => cases h
  | ret => cases h
  | _ => rfl

/-- The oldest addresses of the list stay, if it does not get shorter than they are. -/
theorem track_take {n : Nat} {calls : List Int} (i : Instruction) (address : Int)
    (h : n ≤ calls.length) (h' : n ≤ (i.track address calls).length) :
    (i.track address calls).take n = calls.take n := by
  cases hl : i.links with
  | false => rw [track_of_not_links hl]
  | true =>
      cases i with
      | call target => rw [track_call, List.take_append_of_le_length h]
      | ret =>
          rw [track_ret, List.length_dropLast] at h'
          rw [track_ret, List.dropLast_eq_take, List.take_take, Nat.min_eq_left h']
      | _ => cases hl

/-- Only calls and returns touch the stack. -/
theorem stack_not_mem_footprint {i : Instruction} (h : i.links = false) :
    .stack ∉ i.footprint ∧ .depth ∉ i.footprint := by
  cases i with
  | call target => cases h
  | ret => cases h
  | _ => simp [footprint]

end Instruction

namespace Machine

variable (cfg : Config) (input : Input)

/-- A step without a call or a return leaves the stack alone. -/
theorem step_stack {m : Machine} (h : ∀ i, m.next? cfg = some i → i.links = false) :
    (m.step cfg input).machine.stack = m.stack ∧
      (m.step cfg input).machine.depth = m.depth := by
  constructor
  · exact step_same cfg input m .stack (by decide) fun i hi =>
      (Instruction.stack_not_mem_footprint (h i hi)).1
  · exact step_same cfg input m .depth (by decide) fun i hi =>
      (Instruction.stack_not_mem_footprint (h i hi)).2

/-- A call with room on the stack pushes the address behind it and goes on at its target. -/
theorem step_call {m : Machine} {target : Address} (h : m.next? cfg = some (.call target))
    (hroom : ¬ cfg.stackSize ≤ m.depth) (hcell : m.depth < m.stack.size) :
    (m.step cfg input).result = .ok true ∧
      (m.step cfg input).machine =
        { m with
          stack := m.stack.setIfInBounds m.depth (Address.wrap (m.counter + 2))
          depth := m.depth + 1
          counter := target
          cycles := m.cycles + 1 } := by
  obtain ⟨pair, _, hs⟩ := step_of_next cfg input h
  have hrun : (Effect.execute cfg input pair (.call target)).run
      ⟨m.advance, Effect.traced cfg pair⟩ = _ :=
    (Effect.finish_run (Effect.call cfg pair target) _).trans
      (by rw [Effect.call_run_room cfg pair target hroom hcell])
  rw [hs, hrun]
  exact ⟨rfl, rfl⟩

/-- A return with a pending call goes on at the address on top of the stack. -/
theorem step_ret {m : Machine} {depth : Nat} {a : Int} (h : m.next? cfg = some .ret)
    (hdepth : m.depth = depth + 1) (hcell : m.stack[depth]? = some a) :
    (m.step cfg input).result = .ok true ∧
      (m.step cfg input).machine =
        { m with depth := depth, counter := a, cycles := m.cycles + 1 } := by
  obtain ⟨pair, _, hs⟩ := step_of_next cfg input h
  have hpop := Effect.ret_run_pending pair (p := ⟨m.advance, Effect.traced cfg pair⟩) hdepth
  have hcell' : m.advance.stack[depth]? = some a := hcell
  rw [hcell'] at hpop
  have hrun : (Effect.execute cfg input pair .ret).run
      ⟨m.advance, Effect.traced cfg pair⟩ = _ :=
    (Effect.finish_run (Effect.ret pair) _).trans (by rw [hpop])
  rw [hs, hrun]
  exact ⟨rfl, rfl⟩

/-- The stack overflows exactly where a call finds it full. -/
theorem step_overflows_iff (m : Machine) :
    (m.step cfg input).Traps .stackOverflow ↔
      (∃ target, m.next? cfg = some (.call target)) ∧ cfg.stackSize ≤ m.depth := by
  rw [step_traps_iff]
  cases hn : m.next? cfg with
  | none =>
      constructor
      · intro hk
        cases trap?_of_not_next cfg hn hk
      · rintro ⟨⟨_, h⟩, _⟩
        cases h
  | some i =>
      rw [trap?_of_next cfg hn, Instruction.trap?_eq_some_iff]
      simp

/-- The stack underflows exactly where a return finds it empty. -/
theorem step_underflows_iff (m : Machine) :
    (m.step cfg input).Traps .stackUnderflow ↔ m.next? cfg = some .ret ∧ m.depth = 0 := by
  rw [step_traps_iff]
  cases hn : m.next? cfg with
  | none =>
      constructor
      · intro hk
        cases trap?_of_not_next cfg hn hk
      · rintro ⟨h, _⟩
        cases h
  | some i =>
      rw [trap?_of_next cfg hn, Instruction.trap?_eq_some_iff]
      simp

/-- A step that traps keeps the stack and executes nothing to the end. -/
theorem step_trapped {m : Machine} {kind : TrapKind} (h : (m.step cfg input).Traps kind) :
    (m.step cfg input).result ≠ .ok true ∧ (m.step cfg input).machine = m.fallen := by
  obtain ⟨pair, _, hs⟩ := step_of_trap cfg input ((step_traps_iff cfg input m kind).1 h)
  rw [hs]
  exact ⟨fun hr => (nomatch hr), rfl⟩

end Machine

/-! ## The observer -/

/-- A machine, and the return addresses that its observer expects, the oldest first. -/
structure Observed where
  machine : Machine
  calls : List Int

namespace Observed

variable (cfg : Config)

/-- A machine at the start of its program, without pending calls. -/
def start (now : Float) (m : Machine) : Observed := ⟨m.reset cfg now, []⟩

/-- One step of the machine, of which the observer sees the instruction if it was executed to
    the end. -/
def step (o : Observed) (input : Input) : Observed where
  machine := (o.machine.step cfg input).machine
  calls :=
    match o.machine.retired? cfg input with
    | some i => i.track o.machine.counter o.calls
    | none => o.calls

def run (o : Observed) (inputs : List Input) : Observed := inputs.foldl (step cfg) o

/-- The observer follows every instruction that was executed to the end. -/
theorem step_calls_of_retired {o : Observed} {input : Input} {i : Instruction}
    (h : o.machine.retired? cfg input = some i) :
    (o.step cfg input).calls = i.track o.machine.counter o.calls := by
  simp only [step, h]

/-- A step that executes nothing to the end changes nothing that the observer expects. -/
theorem step_calls_of_not_done {o : Observed} {input : Input}
    (h : (o.machine.step cfg input).result ≠ .ok true) :
    (o.step cfg input).calls = o.calls := by
  simp only [step, Machine.retired?_of_not_done cfg h]

/-- The oldest return addresses stay as long as nothing returns to them. -/
theorem step_take {n : Nat} {o : Observed} {input : Input} (h : n ≤ o.calls.length)
    (h' : n ≤ (o.step cfg input).calls.length) :
    (o.step cfg input).calls.take n = o.calls.take n := by
  cases hr : o.machine.retired? cfg input with
  | none => simp only [step, hr]
  | some i =>
      rw [step_calls_of_retired cfg hr] at h' ⊢
      exact i.track_take o.machine.counter h h'

/-- The oldest return addresses stay while every step of a run leaves them. -/
theorem run_take {n : Nat} (inputs : List Input) {o : Observed}
    (h : ∀ k, n ≤ (o.run cfg (inputs.take k)).calls.length) :
    (o.run cfg inputs).calls.take n = o.calls.take n := by
  induction inputs generalizing o with
  | nil => rfl
  | cons input inputs ih =>
      -- a prefix of the later inputs is a longer prefix of all inputs
      have hlater : ∀ k, n ≤ ((o.step cfg input).run cfg (inputs.take k)).calls.length :=
        fun k => h (k + 1)
      exact (ih hlater).trans (step_take cfg (h 0) (hlater 0))

/-- The machine's stack is as the observer expects. -/
structure Faithful (o : Observed) : Prop where
  depth : o.machine.depth = o.calls.length
  pending : o.machine.pending = o.calls
  cells : o.machine.stack.size = cfg.stackSize.toNat

namespace Faithful

variable {cfg} {o : Observed}

/-- The observer never expects more return addresses than there are cells. -/
theorem length_le (h : o.Faithful cfg) : o.calls.length ≤ cfg.stackSize.toNat := by
  have hlength : o.machine.pending.length = min o.machine.depth o.machine.stack.size := by
    rw [Machine.pending, List.length_take, Array.length_toList]
  rw [h.pending, h.depth, h.cells] at hlength
  omega

/-- The stack is full when the observer expects as many return addresses as there are cells. -/
theorem full_iff (h : o.Faithful cfg) :
    cfg.stackSize ≤ o.machine.depth ↔ o.calls.length = cfg.stackSize.toNat := by
  have hle := h.length_le
  rw [h.depth]
  omega

/-- A stack that is not full has a cell for one more return address. -/
theorem cell_of_not_full (h : o.Faithful cfg) (hroom : ¬ cfg.stackSize ≤ o.machine.depth) :
    o.machine.depth < o.machine.stack.size := by
  rw [h.cells]
  omega

/-- The cell on top of the stack has the address that the observer expects next. -/
theorem last_cell (h : o.Faithful cfg) {depth : Nat} (hdepth : o.machine.depth = depth + 1) :
    o.machine.stack[depth]? = o.calls.getLast? := by
  have hlength : o.calls.length - 1 = depth := by
    rw [← h.depth, hdepth]
    rfl
  rw [List.getLast?_eq_getElem?, hlength, ← h.pending, Machine.pending,
    List.getElem?_take_of_lt (by omega), Array.getElem?_toList]

theorem start (now : Float) (m : Machine) : (start cfg now m).Faithful cfg where
  depth := rfl
  pending := rfl
  cells := Array.size_replicate

/-- A step that keeps the stack and that the observer takes no note of. -/
theorem keep (h : o.Faithful cfg) {o' : Observed} (hcalls : o'.calls = o.calls)
    (hstack : o'.machine.stack = o.machine.stack) (hdepth : o'.machine.depth = o.machine.depth) :
    o'.Faithful cfg where
  depth := by rw [hdepth, hcalls, h.depth]
  pending := by rw [hcalls, ← h.pending, Machine.pending, Machine.pending, hstack, hdepth]
  cells := by rw [hstack, h.cells]

/-- A step that pushes what the observer appends. -/
theorem push (h : o.Faithful cfg) {o' : Observed} {a : Int} (hcalls : o'.calls = o.calls ++ [a])
    (hstack : o'.machine.stack = o.machine.stack.setIfInBounds o.machine.depth a)
    (hdepth : o'.machine.depth = o.machine.depth + 1)
    (hcell : o.machine.depth < o.machine.stack.size) : o'.Faithful cfg where
  depth := by rw [hdepth, hcalls, h.depth, List.length_append, List.length_singleton]
  pending := by
    -- the pushed cell is the first one behind those in use
    have hset : (o.machine.stack.toList.set o.machine.depth a)[o.machine.depth]? = some a :=
      List.getElem?_set_self (by simpa using hcell)
    rw [hcalls, ← h.pending, Machine.pending, Machine.pending, hstack, hdepth,
      Array.toList_setIfInBounds, List.take_add_one, hset, List.take_set_of_le (Nat.le_refl _)]
    rfl
  cells := by rw [hstack, Array.size_setIfInBounds, h.cells]

/-- A step that pops what the observer removes. -/
theorem pop (h : o.Faithful cfg) {o' : Observed} (hcalls : o'.calls = o.calls.dropLast)
    (hstack : o'.machine.stack = o.machine.stack)
    (hdepth : o.machine.depth = o'.machine.depth + 1) : o'.Faithful cfg where
  depth := by rw [hcalls, List.length_dropLast, ← h.depth, hdepth, Nat.add_sub_cancel]
  pending := by
    have hlength : o.calls.length - 1 = o'.machine.depth := by
      rw [← h.depth, hdepth, Nat.add_sub_cancel]
    rw [hcalls, List.dropLast_eq_take, hlength, ← h.pending, Machine.pending, Machine.pending,
      hstack, List.take_take, hdepth, Nat.min_eq_left (Nat.le_succ _)]
  cells := by rw [hstack, h.cells]

/-- A call that finds room is executed to the end, and the observer appends what it pushes. -/
theorem step_call (h : o.Faithful cfg) {target : Address} (input : Input)
    (hn : o.machine.next? cfg = some (.call target))
    (hroom : ¬ cfg.stackSize ≤ o.machine.depth) :
    o.machine.retired? cfg input = some (.call target) ∧ (o.step cfg input).Faithful cfg := by
  have hcell := h.cell_of_not_full hroom
  obtain ⟨hdone, hmachine⟩ := Machine.step_call cfg input hn hroom hcell
  have hr : o.machine.retired? cfg input = some (.call target) :=
    (Machine.retired?_of_done cfg hdone).trans hn
  refine ⟨hr, h.push (a := Address.wrap (o.machine.counter + 2)) ?_ ?_ ?_ hcell⟩
  · rw [step_calls_of_retired cfg hr, Instruction.track_call]
  · rw [step, hmachine]
  · rw [step, hmachine]

/-- A return with a pending call is executed to the end, and it continues at the address that
    the observer removes. -/
theorem step_ret (h : o.Faithful cfg) (input : Input) (hn : o.machine.next? cfg = some .ret)
    (hdepth : o.machine.depth ≠ 0) :
    o.machine.retired? cfg input = some .ret ∧ (o.step cfg input).Faithful cfg ∧
      o.calls.getLast? = some (o.step cfg input).machine.counter := by
  obtain ⟨depth, hd⟩ := Nat.exists_eq_succ_of_ne_zero hdepth
  cases hlast : o.calls.getLast? with
  | none =>
      rw [List.getLast?_eq_none_iff] at hlast
      rw [h.depth, hlast] at hdepth
      exact absurd rfl hdepth
  | some a =>
      have hcell : o.machine.stack[depth]? = some a := (h.last_cell hd).trans hlast
      obtain ⟨hdone, hmachine⟩ := Machine.step_ret cfg input hn hd hcell
      have hr : o.machine.retired? cfg input = some .ret :=
        (Machine.retired?_of_done cfg hdone).trans hn
      refine ⟨hr, h.pop ?_ ?_ ?_, ?_⟩
      · rw [step_calls_of_retired cfg hr, Instruction.track_ret]
      · rw [step, hmachine]
      · rw [step, hmachine, hd]
      · rw [step, hmachine]

/-- A trap leaves the stack and what is expected of it alone. -/
theorem step_trapped (h : o.Faithful cfg) {input : Input} {kind : TrapKind}
    (ht : (o.machine.step cfg input).Traps kind) : (o.step cfg input).Faithful cfg := by
  obtain ⟨hdone, hmachine⟩ := Machine.step_trapped cfg input ht
  refine h.keep (step_calls_of_not_done cfg hdone) ?_ ?_
  · rw [step, hmachine]
    rfl
  · rw [step, hmachine]
    rfl

/-- So does any instruction that is neither a call nor a return. -/
theorem step_other (h : o.Faithful cfg) (input : Input)
    (hl : ∀ i, o.machine.next? cfg = some i → i.links = false) :
    (o.step cfg input).Faithful cfg := by
  obtain ⟨hstack, hdepth⟩ := Machine.step_stack cfg input hl
  refine h.keep ?_ hstack hdepth
  cases hr : o.machine.retired? cfg input with
  | none => simp only [Observed.step, hr]
  | some i =>
      rw [step_calls_of_retired cfg hr]
      exact Instruction.track_of_not_links (hl i (Machine.next_of_retired cfg hr).2) _ _

/-- A call or a return traps, or the observer follows it. -/
theorem step_linked (h : o.Faithful cfg) {i : Instruction} (input : Input)
    (hn : o.machine.next? cfg = some i) (hl : i.links = true) :
    (o.machine.step cfg input).Traps .stackOverflow ∨
      (o.machine.step cfg input).Traps .stackUnderflow ∨
        o.machine.retired? cfg input = some i ∧ (o.step cfg input).Faithful cfg := by
  cases i with
  | call target =>
      by_cases hfull : cfg.stackSize ≤ o.machine.depth
      · exact Or.inl ((Machine.step_overflows_iff cfg input _).2 ⟨⟨target, hn⟩, hfull⟩)
      · exact Or.inr (Or.inr (h.step_call input hn hfull))
  | ret =>
      by_cases hempty : o.machine.depth = 0
      · exact Or.inr (Or.inl ((Machine.step_underflows_iff cfg input _).2 ⟨hn, hempty⟩))
      · obtain ⟨hr, hstep, _⟩ := h.step_ret input hn hempty
        exact Or.inr (Or.inr ⟨hr, hstep⟩)
  | _ => cases hl

/-- Every step keeps the stack as the observer expects. -/
theorem step (h : o.Faithful cfg) (input : Input) : (o.step cfg input).Faithful cfg := by
  -- only a call or a return can change the stack, and one that traps changes nothing
  cases hn : o.machine.next? cfg with
  | none =>
      refine h.step_other input fun i hi => ?_
      rw [hn] at hi
      cases hi
  | some i =>
      cases hl : i.links with
      | false =>
          refine h.step_other input fun i' hi => ?_
          rw [hn] at hi
          cases hi
          exact hl
      | true =>
          rcases h.step_linked input hn hl with ht | ht | ⟨_, hstep⟩
          · exact h.step_trapped ht
          · exact h.step_trapped ht
          · exact hstep

/-- Whatever the inputs are, the stack stays as the observer expects. -/
theorem run (inputs : List Input) {o : Observed} (h : o.Faithful cfg) :
    (o.run cfg inputs).Faithful cfg := by
  induction inputs generalizing o with
  | nil => exact h
  | cons input inputs ih => exact ih (h.step input)

end Faithful

/-- What calls and returns do on an observed machine. -/
structure Disciplined (o : Observed) : Prop where
  /-- There are as many pending calls as the observer counts. -/
  depth : o.machine.depth = o.calls.length
  /-- The stack cells in use are the observer's list. -/
  pending : o.machine.pending = o.calls
  /-- The stack overflows exactly on a call while the list is as long as the stack. A negative
      size counts as none. -/
  overflows : ∀ input, (o.machine.step cfg input).Traps .stackOverflow ↔
    (∃ target, o.machine.next? cfg = some (.call target)) ∧
      o.calls.length = cfg.stackSize.toNat
  /-- The stack underflows exactly on a return while the list is empty. -/
  underflows : ∀ input, (o.machine.step cfg input).Traps .stackUnderflow ↔
    o.machine.next? cfg = some .ret ∧ o.calls = []
  /-- Every other call or return is executed to the end. -/
  retires : ∀ input i, o.machine.next? cfg = some i → i.links = true →
    (o.machine.step cfg input).Traps .stackOverflow ∨
      (o.machine.step cfg input).Traps .stackUnderflow ∨ o.machine.retired? cfg input = some i
  /-- A return continues at the last entry of the list. -/
  returns : ∀ input, o.machine.retired? cfg input = some .ret →
    o.calls.getLast? = some (o.step cfg input).machine.counter
  /-- Whatever runs between a call and its return, the return continues behind the call. The
      return that matches is the first one that makes the list as long as before the call. -/
  resumes : ∀ input inputs last target,
    let called := o.step cfg input
    let body := called.run cfg inputs
    o.machine.retired? cfg input = some (.call target) →
    (∀ k, o.calls.length < (called.run cfg (inputs.take k)).calls.length) →
    body.machine.retired? cfg last = some .ret →
    (body.step cfg last).calls.length = o.calls.length →
    (body.step cfg last).machine.counter = Address.wrap (o.machine.counter + 2)

variable {cfg}

/-- A return that is executed goes on at the address that the observer expects. -/
theorem Faithful.getLast?_of_ret {o : Observed} (h : o.Faithful cfg) {input : Input}
    (hr : o.machine.retired? cfg input = some .ret) :
    o.calls.getLast? = some (o.step cfg input).machine.counter := by
  obtain ⟨hdone, hn⟩ := Machine.next_of_retired cfg hr
  refine (h.step_ret input hn fun hempty => ?_).2.2
  exact (Machine.step_trapped cfg input
    ((Machine.step_underflows_iff cfg input _).2 ⟨hn, hempty⟩)).1 hdone

/-- The return that matches a call continues behind it. -/
theorem Faithful.counter_of_resumed {o : Observed} (h : o.Faithful cfg) {input last : Input}
    {inputs : List Input} {target : Address}
    (hcall : o.machine.retired? cfg input = some (.call target))
    (hbody : ∀ k, o.calls.length < ((o.step cfg input).run cfg (inputs.take k)).calls.length)
    (hret : ((o.step cfg input).run cfg inputs).machine.retired? cfg last = some .ret)
    (hlast : (((o.step cfg input).run cfg inputs).step cfg last).calls.length = o.calls.length) :
    (((o.step cfg input).run cfg inputs).step cfg last).machine.counter
      = Address.wrap (o.machine.counter + 2) := by
  have hcalled : (o.step cfg input).calls = o.calls ++ [Address.wrap (o.machine.counter + 2)] :=
    step_calls_of_retired cfg hcall
  have htake := run_take cfg inputs hbody
  have hgetLast := ((h.step input).run inputs).getLast?_of_ret hret
  have hlength := hbody inputs.length
  rw [step_calls_of_retired cfg hret, Instruction.track_ret, List.length_dropLast] at hlast
  rw [List.take_length] at hlength
  -- the list is as long as right after the call, so it is the same list
  rw [hcalled, List.take_of_length_le (by omega), List.take_of_length_le (by simp)] at htake
  rw [htake, List.getLast?_concat] at hgetLast
  exact (Option.some.inj hgetLast).symm

/-- Throughout every run from the start of any program, on any host and with a stack of any size,
    calls and returns are disciplined. -/
theorem run_disciplined (cfg : Config) (now : Float) (m : Machine) (inputs : List Input) :
    ((start cfg now m).run cfg inputs).Disciplined cfg := by
  have h : ((start cfg now m).run cfg inputs).Faithful cfg := (Faithful.start now m).run inputs
  generalize (start cfg now m).run cfg inputs = o at h
  exact
    { depth := h.depth
      pending := h.pending
      overflows := fun input => by
        rw [Machine.step_overflows_iff, h.full_iff]
      underflows := fun input => by
        rw [Machine.step_underflows_iff, h.depth, List.length_eq_zero_iff]
      retires := fun input i hn hl => by
        rcases h.step_linked input hn hl with ht | ht | ⟨hr, _⟩
        · exact Or.inl ht
        · exact Or.inr (Or.inl ht)
        · exact Or.inr (Or.inr hr)
      returns := fun input => h.getLast?_of_ret
      resumes := fun input inputs last target => h.counter_of_resumed }

/-- A call at address 0 and its return. -/
example :
    let cfg : Config := { memorySize := 6, programStart := 0 }
    let memory : Array Byte := #[0x20, 0x04, 0x00, 0x00, 0x00, 0xEE]
    let called := (start cfg 0.0 { Machine.initial cfg 0.0 with memory := memory }).run cfg
      [⟨fun _ => false, 0.0, 0⟩]
    let returned := called.run cfg [⟨fun _ => false, 0.0, 0⟩]
    called.calls = [2] ∧ called.machine.counter = 4 ∧
      returned.calls = [] ∧ returned.machine.counter = 2 := by
  decide +kernel

end Observed

end Chip8
