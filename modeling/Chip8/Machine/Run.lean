import Chip8.Machine.Step

/-!
# Runs

A run does up to a number of steps and counts those that executed an instruction. It ends early
when the program waits for a key, because the keys are held all the time and waiting longer would
change nothing.

A `Run` is such a run in the middle and `Run.turn` takes it one step further. `Machine.run` takes
all turns with a given `Host`; a program that reads a real clock takes them one by one.
`Machine.steps` does a number of steps and never ends early. `Machine.outcomes` lists what comes of
single steps in a row, whatever the host offers to each of them and whether they fail or not.
-/

namespace Chip8

/-- A run in the middle. -/
structure Run where
  machine : Machine
  /-- The number of turns taken. -/
  turns : Nat
  /-- The number of random numbers drawn. -/
  draws : Nat
  /-- The number of instructions executed to the end. -/
  retired : Nat
  events : Array Event

/-- What a turn leads to. -/
inductive Turn where
  | more (r : Run)
  | stopped (r : Run)
  | faulted (f : Fault) (r : Run)

namespace Run

variable (cfg : Config)

/-- The run that starts with a machine. -/
def start (m : Machine) : Run := ⟨m, 0, 0, 0, #[]⟩

/-- The run after one more step, which executed an instruction to the end or did not. -/
def extend (r : Run) (m : Machine) (events : Array Event) (done : Bool) : Run where
  machine := m
  turns := r.turns + 1
  draws := r.draws + Event.draws events
  retired := if done then r.retired + 1 else r.retired
  events := r.events ++ events

/-- One more step. If there is a reason why the pause after a step cannot be made, a run that
would go on ends there. -/
def turn (input : Input) (pause : Option Fault) (r : Run) : Turn :=
  let out := r.machine.step cfg input
  match out.result with
  | .error f => .faulted f (r.extend out.machine out.events false)
  | .ok done =>
    if !done && out.machine.waiting then
      .stopped (r.extend out.machine
        (out.events.push (.logged (.stuck out.machine.counter))) done)
    else
      let r' := r.extend out.machine out.events done
      match pause with
      | some f => .faulted f r'
      | none => .more r'

/-- What came of a run that ended without a fault: the number of instructions executed. -/
def outcome (r : Run) : Outcome Nat := ⟨.ok r.retired, r.machine, r.events⟩

/-- Up to `n` more steps. -/
def finish (host : Host) (pause : Option Fault) : Nat → Run → Outcome Nat
  | 0, r => r.outcome
  | n + 1, r =>
    match r.turn cfg (host.input r.turns r.draws) pause with
    | .more r => finish host pause n r
    | .stopped r => r.outcome
    | .faulted f r => ⟨.error f, r.machine, r.events⟩

/-- Exactly `n` more steps, also while the machine waits or is halted. -/
def steps (host : Host) : Nat → Run → Outcome Nat
  | 0, r => r.outcome
  | n + 1, r =>
    let out := r.machine.step cfg (host.input r.turns r.draws)
    match out.result with
    | .error f => ⟨.error f, out.machine, r.events ++ out.events⟩
    | .ok done => steps host n (r.extend out.machine out.events done)

end Run

/-- Run a machine for up to `steps` steps. -/
def Machine.run (cfg : Config) (host : Host) (pause : Option Fault) (steps : Int) (m : Machine) :
    Outcome Nat :=
  Run.finish cfg host pause steps.toNat (Run.start m)

/-- Let a machine do exactly `n` steps. -/
def Machine.steps (cfg : Config) (host : Host) (n : Nat) (m : Machine) : Outcome Nat :=
  Run.steps cfg host n (Run.start m)

/-- What comes of steps in a row, each with its own input. A step that fails does not end them. -/
def Machine.outcomes (cfg : Config) (inputs : List Input) (m : Machine) : List (Outcome Bool) :=
  match inputs with
  | [] => []
  | input :: inputs =>
    let out := m.step cfg input
    out :: outcomes cfg inputs out.machine

end Chip8
