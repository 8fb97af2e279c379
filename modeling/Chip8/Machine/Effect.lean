import Chip8.Machine.Basic
import Chip8.Screen.Sprite

/-!
# Effects on the machine

Instructions are built from the small effects of this module: reading and writing registers and
memory, painting, moving the program counter and telling the host. An effect may stop with a
fault; what it changed until then stays changed, and its events stay in order.

  * `Effect`  : what changes a machine and collects events,
  * `Outcome` : what an effect answers, the machine it leaves and the events.
-/

namespace Chip8

/-- A machine in the middle of an effect, with what it has done to its host so far. -/
structure Progress where
  machine : Machine
  events : Array Event

/-- An effect on a machine, which may stop with a fault. -/
abbrev Effect := EStateM Fault Progress

/-- What came of an effect. -/
structure Outcome (α : Type) where
  result : Except Fault α
  machine : Machine
  events : Array Event

namespace Effect

variable {α : Type} (cfg : Config)

/-- Apply an effect to a machine. -/
def outcome (eff : Effect α) (m : Machine) : Outcome α :=
  match eff.run ⟨m, #[]⟩ with
  | .ok a p => ⟨.ok a, p.machine, p.events⟩
  | .error f p => ⟨.error f, p.machine, p.events⟩

/-- The machine as it is now. -/
def machine : Effect Machine := return (← get).machine

/-- Change the machine. -/
def change (f : Machine → Machine) : Effect Unit :=
  modify fun p => { p with machine := f p.machine }

/-- Do something to the host. -/
def emit (e : Event) : Effect Unit :=
  modify fun p => { p with events := p.events.push e }

/-- The content of a register. -/
def register (x : Nat) : Effect Int := do
  match (← machine).registers[x]? with
  | some v => return v
  | none => throw .outOfRange

/-- Put a value into a register. -/
def setRegister (x : Nat) (v : Int) : Effect Unit := do
  if x < (← machine).registers.size then
    change fun m => { m with registers := m.registers.setIfInBounds x v }
  else
    throw .outOfRange

/-- The byte in memory at an address, which wraps at the size of memory. -/
def fetch (address : Int) : Effect Byte := do
  let place ← ofExcept (Fault.modulo address cfg.memorySize)
  match Cells.get? (← machine).memory place with
  | some b => return b
  | none => throw .outOfRange

/-- Store a value in memory at an address, which wraps at the size of memory. The value must be
a byte. -/
def store (address value : Int) : Effect Unit := do
  let place ← ofExcept (Fault.modulo address cfg.memorySize)
  let m ← machine
  match Byte.ofInt? value, Cells.position? m.memory.size place with
  | some b, some p => change fun m => { m with memory := m.memory.setIfInBounds p b }
  | none, _ => throw .notAByte
  | some _, none => throw .outOfRange

/-- Paint on the machine's screen. -/
def paint (act : Paint α) : Effect α := do
  let p ← get
  match act.run p.machine.screen with
  | .ok a s =>
    change fun m => { m with screen := s }
    return a
  | .error f s =>
    change fun m => { m with screen := s }
    throw f

/-- Put an address into the index register. -/
def setIndex (a : Int) : Effect Unit := change fun m => { m with index := Address.wrap a }

/-- Continue at an address. -/
def jump (a : Int) : Effect Unit := change fun m => { m with counter := Address.wrap a }

/-- Skip the next instruction under a condition. -/
def skipIf (condition : Bool) : Effect Unit := do
  if condition then
    jump ((← machine).counter + 2)

end Effect

end Chip8
