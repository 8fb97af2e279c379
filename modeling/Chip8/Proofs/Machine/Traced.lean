import Chip8.Machine.Run
import Chip8.Proofs.Machine.EarlyStop
import Chip8.Proofs.Machine.Halted
import Chip8.Proofs.Machine.Listed
import Chip8.Proofs.Machine.Restart
import Chip8.Proofs.Machine.Telling

/-!
# What tracing reports

Tracing a machine adds one report to every step that fetches, and nothing else: the steps answer
the same, leave the same machines and do the same to the host besides. `Machine.Shadows` says this
of one step (`Machine.shadows_step`) and `Machine.trace_complete` of any number of steps in a row,
also beyond a trap. A run that a machine is launched for goes the same way traced or not
(`Run.steps_trace`).
-/

namespace Chip8

/-- The message that an event reports, if it reports one. -/
def Event.message? : Event → Option Message
  | .logged msg => some msg
  | _ => none

/-- The messages among some events. -/
def Event.messages (events : Array Event) : List Message := events.toList.filterMap Event.message?

/-- The errors that were reported by steps in a row. -/
def Outcome.errors {α : Type} (outs : List (Outcome α)) : List Message :=
  outs.flatMap fun out => (Event.messages out.events).filter (·.level = .error)

theorem Event.messages_append (first second : Array Event) :
    messages (first ++ second) = messages first ++ messages second := by
  rw [messages, Array.toList_append, List.filterMap_append]
  rfl

/-- Events that no instruction causes of its own accord are the only reports. -/
theorem Event.messages_of_mayTell {i : Instruction} {events : Array Event}
    (h : ∀ e ∈ events, i.MayTell e) : messages events = [] := by
  rw [messages, List.filterMap_eq_nil_iff]
  intro e he
  cases e with
  | logged msg => exact absurd (h _ (Array.mem_toList_iff.1 he)) (i.not_mayTell_logged msg)
  | _ => rfl

namespace Machine

/-- The message is the record of the byte pair at the program counter: it is a detail, and tells the
    address, the two bytes and their assembler text. -/
def Records (m : Machine) (msg : Message) : Prop :=
  ∃ opcode argument : Byte,
    Cells.get? m.memory (m.counter.fmod 4096) = some opcode ∧
    Cells.get? m.memory ((m.counter + 1).fmod 4096) = some argument ∧
    msg = .traced m.counter opcode argument ∧ msg.level = .debug ∧
    msg.text = "PC 0x" ++ Numeral.hex 3 m.counter ++ ": " ++ Numeral.hex 2 opcode.toNat
      ++ Numeral.hex 2 argument.toNat ++ "  " ++ assemblerText opcode argument

/-- What a step comes to on a traced machine, and what it comes to on the same machine without
    tracing. -/
structure Shadows (m : Machine) (traced plain : Outcome Bool) : Prop where
  result : traced.result = plain.result
  machine : traced.machine = plain.machine
  /-- A halted machine does nothing to the host. -/
  halted : m.halted = true → traced.events = #[] ∧ plain.events = #[]
  /-- Any other step is recorded before anything else happens. -/
  running : m.halted = false →
    ∃ msg, m.Records msg ∧ traced.events = #[.logged msg] ++ plain.events
  /-- Without tracing nothing is reported but a trap. -/
  messages : Event.messages plain.events =
    match plain.result with
    | .error (.trap t) => [.trapped t]
    | _ => []

/-- A step that is traced shadows the one that is not. -/
theorem shadows_step {m : Machine} (hm : m.memory.size = 4096) (input : Input) :
    m.Shadows (m.step { trace := true } input) (m.step {} input) := by
  cases hh : m.halted with
  | true =>
      rw [step_of_halted _ input hh, step_of_halted _ input hh]
      exact ⟨rfl, rfl, fun _ => ⟨rfl, rfl⟩, fun h => Bool.noConfusion (hh.symm.trans h), rfl⟩
  | false =>
      obtain ⟨pair, hp⟩ := exists_fetched hm
      obtain ⟨haddress, hopcode, hargument⟩ := cells_of_fetched {} hp
      have htrace := step_trace {} input true hh hp
      have hresult := congrArg Outcome.result htrace
      have hmachine := congrArg Outcome.machine htrace
      have hevents := congrArg Outcome.events htrace
      refine ⟨hresult, hmachine,
        fun h => Bool.noConfusion (hh.symm.trans h), fun _ => ?_, ?_⟩
      · refine ⟨.traced pair.address pair.opcode pair.argument,
          ⟨pair.opcode, pair.argument, hopcode, hargument, ?_, rfl, ?_⟩, hevents⟩
        · rw [haddress]
        · rw [← haddress]
          rfl
      · -- without tracing, a trap is all that a step reports
        cases ht : m.trap? {} with
        | some kind =>
            obtain ⟨pair', -, hs⟩ := step_of_trap {} input ht
            rw [hs]
            rfl
        | none =>
            obtain ⟨i, added, -, hevents, hadded⟩ := step_told {} input hh hp ht
            have hquiet : Event.messages (m.step {} input).events = [] := by
              rw [hevents]
              show Event.messages (#[] ++ added) = []
              rw [Array.empty_append]
              exact Event.messages_of_mayTell hadded
            rw [hquiet]
            split
            · rename_i t hresult
              exact absurd hresult (step_ne_trap {} input ht t)
            · rfl

/-- Tracing makes no difference to the machine that a step leaves. -/
theorem step_machine_trace {m : Machine} (hm : m.memory.size = 4096) (report : Bool)
    (input : Input) :
    (m.step { trace := report } input).machine = (m.step {} input).machine := by
  cases report with
  | false => rfl
  | true => exact (shadows_step hm input).machine

/-- Tracing makes no difference to what is reachable. -/
theorem Reachable.untraced {report : Bool} {admits : Machine → Input → Prop} {m : Machine}
    (h : Reachable { trace := report } admits m) : Reachable {} admits m := by
  induction h with
  | create now hcreate => exact Reachable.create now hcreate
  | @load m image _ ih =>
      have hsame : (m.load { trace := report } image).machine = (m.load {} image).machine := by
        rw [load_machine, load_machine]
        rfl
      rw [hsame]
      exact ih.load image
  | @step m input _ hinput ih =>
      rw [step_machine_trace ih.paintable.memory]
      exact ih.step input hinput
  | reset now _ ih => exact ih.reset now

/-- A record is no error, so that tracing adds none. -/
theorem Shadows.errors {m : Machine} {traced plain : Outcome Bool} (h : m.Shadows traced plain) :
    (Event.messages traced.events).filter (·.level = .error)
      = (Event.messages plain.events).filter (·.level = .error) := by
  cases hh : m.halted with
  | true =>
      obtain ⟨htraced, hplain⟩ := h.halted hh
      rw [htraced, hplain]
  | false =>
      obtain ⟨msg, ⟨opcode, argument, -, -, -, hlevel, -⟩, hevents⟩ := h.running hh
      rw [hevents, Event.messages_append, List.filter_append]
      have hrecord : (Event.messages #[.logged msg]).filter (·.level = .error) = [] := by
        simp [Event.messages, Event.message?, hlevel]
      rw [hrecord, List.nil_append]

theorem length_outcomes (cfg : Config) (inputs : List Input) (m : Machine) :
    (m.outcomes cfg inputs).length = inputs.length := by
  induction inputs generalizing m with
  | nil => rfl
  | cons input inputs ih => exact congrArg (· + 1) (ih _)

/-- The machine in front of each of the steps shadows it. -/
theorem shadows_outcomes {m : Machine} (hm : m.memory.size = 4096) (inputs : List Input) {k : Nat}
    (hk : k < inputs.length) :
    ∃ traced plain, (m.outcomes { trace := true } inputs)[k]? = some traced ∧
      (m.outcomes {} inputs)[k]? = some plain ∧
      (m.after {} (inputs.take k)).Shadows traced plain := by
  induction inputs generalizing m k with
  | nil => cases hk
  | cons input inputs ih =>
      have hstep := shadows_step hm input
      rw [outcomes, outcomes, hstep.machine]
      cases k with
      | zero => exact ⟨_, _, rfl, rfl, hstep⟩
      | succ k =>
          have hnext : (m.step {} input).machine.memory.size = 4096 :=
            (memory_size_stable 4096).step {} input hm
          exact ih hnext (Nat.lt_of_succ_lt_succ hk)

theorem errors_cons {α : Type} (out : Outcome α) (outs : List (Outcome α)) :
    Outcome.errors (out :: outs)
      = (Event.messages out.events).filter (·.level = .error) ++ Outcome.errors outs :=
  List.flatMap_cons

/-- Tracing reports the same errors. -/
theorem errors_trace {m : Machine} (hm : m.memory.size = 4096) (inputs : List Input) :
    Outcome.errors (m.outcomes { trace := true } inputs)
      = Outcome.errors (m.outcomes {} inputs) := by
  induction inputs generalizing m with
  | nil => rfl
  | cons input inputs ih =>
      have hstep := shadows_step hm input
      have hnext : (m.step {} input).machine.memory.size = 4096 :=
        (memory_size_stable 4096).step {} input hm
      rw [outcomes, outcomes, hstep.machine, errors_cons, errors_cons, hstep.errors, ih hnext]

/-- The only error is a trap, and no step after a trap does anything. -/
theorem length_errors {m : Machine} (hm : m.memory.size = 4096) (inputs : List Input) :
    (Outcome.errors (m.outcomes {} inputs)).length ≤ 1 := by
  induction inputs generalizing m with
  | nil => exact Nat.zero_le 1
  | cons input inputs ih =>
      have hmessages := (shadows_step hm input).messages
      rw [outcomes, errors_cons, hmessages]
      cases ht : m.trap? {} with
      | some kind =>
          obtain ⟨pair, -, hs⟩ := step_of_trap {} input ht
          have hrest : Outcome.errors (m.fallen.outcomes {} inputs) = [] := by
            rw [outcomes_of_halted {} rfl, Outcome.errors, List.flatMap_map]
            exact List.flatMap_eq_nil_iff.2 fun _ _ => rfl
          rw [hs, hrest]
          exact Nat.le_refl 1
      | none =>
          have hnext : (m.step {} input).machine.memory.size = 4096 :=
            (memory_size_stable 4096).step {} input hm
          split
          · rename_i t hresult
            exact absurd hresult (step_ne_trap {} input ht t)
          · exact ih hnext

/-- Steps in a row, on a machine that is traced and on the same machine without tracing, answer or
    fail the same and leave the same machines. Each of them is recorded once on the traced machine,
    before it does anything else, with the address and the bytes that were there in front of it,
    unless the machine is halted; nothing else is reported but a trap, at most once. -/
theorem trace_complete {report : Bool} {admits : Machine → Input → Prop} {m : Machine}
    (h : Reachable { trace := report } admits m) (inputs : List Input) :
    let traced := m.outcomes { trace := true } inputs
    let plain := m.outcomes {} inputs
    traced.length = inputs.length ∧ plain.length = inputs.length ∧
      (∀ k < inputs.length, ∃ out out', traced[k]? = some out ∧ plain[k]? = some out' ∧
        (m.after {} (inputs.take k)).Shadows out out') ∧
      Outcome.errors traced = Outcome.errors plain ∧ (Outcome.errors plain).length ≤ 1 := by
  intro traced plain
  have hm := h.untraced.paintable.memory
  refine ⟨length_outcomes _ inputs m, length_outcomes _ inputs m, fun k hk => ?_,
    errors_trace hm inputs, length_errors hm inputs⟩
  exact shadows_outcomes hm inputs hk

/-- In empty memory the first step traps, and the second one finds the machine halted. -/
theorem trace_complete_empty_memory :
    let m := initial {} 0.0
    let inputs : List Input := [⟨fun _ => false, 0.0, 0⟩, ⟨fun _ => true, 0.5, 7⟩]
    Outcome.errors (m.outcomes { trace := true } inputs) = [.trapped ⟨.illegal, 0x200, 0, 0⟩] ∧
      ∀ k < 2, ∃ out out', (m.outcomes { trace := true } inputs)[k]? = some out ∧
        (m.outcomes {} inputs)[k]? = some out' ∧
        (m.after {} (inputs.take k)).Shadows out out' := by
  intro m inputs
  have hm : Reachable { trace := false } (fun _ _ => True) m :=
    Reachable.create 0.0 (create_usual 0.0)
  obtain ⟨-, -, hshadows, herrors, -⟩ := trace_complete hm inputs
  have hplain : Outcome.errors (m.outcomes {} inputs) = [.trapped ⟨.illegal, 0x200, 0, 0⟩] := by
    decide +kernel
  exact ⟨herrors.trans hplain, hshadows⟩

end Machine

/-! ## Runs -/

/-- A record is no random number. -/
theorem Machine.Shadows.draws {m : Machine} {traced plain : Outcome Bool}
    (h : m.Shadows traced plain) : Event.draws traced.events = Event.draws plain.events := by
  cases hh : m.halted with
  | true =>
      obtain ⟨htraced, hplain⟩ := h.halted hh
      rw [htraced, hplain]
  | false =>
      obtain ⟨msg, -, hevents⟩ := h.running hh
      rw [hevents, Event.draws_append]
      exact Nat.zero_add _

/-- Steps of a run go the same way whether they are traced or not, and whatever was done to the
    host before them. -/
theorem Run.steps_trace (report : Bool) (host : Host) (n : Nat) {r : Run} (events : Array Event)
    (h : r.machine.memory.size = 4096) :
    (steps { trace := report } host n { r with events := events }).result
        = (steps {} host n r).result ∧
      (steps { trace := report } host n { r with events := events }).machine
        = (steps {} host n r).machine := by
  induction n generalizing r events with
  | zero => exact ⟨rfl, rfl⟩
  | succ n ih =>
      let input := host.input r.turns r.draws
      -- without tracing there is nothing to compare
      have hsame : (r.machine.step { trace := report } input).result
            = (r.machine.step {} input).result ∧
          (r.machine.step { trace := report } input).machine
            = (r.machine.step {} input).machine ∧
          Event.draws (r.machine.step { trace := report } input).events
            = Event.draws (r.machine.step {} input).events := by
        cases report with
        | false => exact ⟨rfl, rfl, rfl⟩
        | true =>
            have hshadows := Machine.shadows_step h input
            exact ⟨hshadows.result, hshadows.machine, hshadows.draws⟩
      obtain ⟨hresult, hmachine, hdraws⟩ := hsame
      cases hr : (r.machine.step {} input).result with
      | error f =>
          rw [steps_of_error (r := { r with events := events }) (hresult.trans hr),
            steps_of_error hr]
          exact ⟨rfl, hmachine⟩
      | ok done =>
          have hnext : (r.machine.step {} input).machine.memory.size = 4096 :=
            (Machine.memory_size_stable 4096).step {} input h
          have hextend : ({ r with events := events } : Run).extend
              (r.machine.step { trace := report } input).machine
              (r.machine.step { trace := report } input).events done
              = { r.extend (r.machine.step {} input).machine (r.machine.step {} input).events done
                  with events := events ++ (r.machine.step { trace := report } input).events } := by
            rw [extend, extend, hmachine, hdraws]
          rw [steps_of_ok (r := { r with events := events }) (hresult.trans hr), steps_of_ok hr]
          show (steps _ host n (({ r with events := events } : Run).extend
              (r.machine.step { trace := report } input).machine
              (r.machine.step { trace := report } input).events done)).result = _ ∧ _
          rw [hextend]
          exact ih _ hnext

end Chip8
