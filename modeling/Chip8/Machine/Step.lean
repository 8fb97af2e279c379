import Chip8.Instruction.Decode
import Chip8.Machine.Execute

/-!
# One step

A step fetches the byte pair at the program counter, moves the counter behind it and executes the
instruction it stands for. The answer is whether an instruction was executed to the end: a halted
machine does nothing, and a machine that waits for a key tries again at its next step.
-/

namespace Chip8

namespace Effect

variable (cfg : Config) (input : Input)

/-- Fetch the byte pair at the program counter and move the counter behind it. -/
def fetchPair : Effect Fetched := do
  let address := (← machine).counter
  let opcode ← fetch cfg address
  let argument ← fetch cfg (address + 1)
  jump (address + 2)
  return ⟨address, opcode, argument⟩

/-- Report the byte pair that is about to be executed, if the machine is traced. -/
def trace (pair : Fetched) : Effect Unit := do
  if cfg.trace then
    emit (.logged (.traced pair.address pair.opcode pair.argument))

/-- Carry out the instruction that a byte pair stands for. -/
def executePair (pair : Fetched) : Effect Bool :=
  match Instruction.decode pair.opcode pair.argument with
  | some i => execute cfg input pair i
  | none => trap pair .illegal

/-- Do one step. -/
def step : Effect Bool := do
  if (← machine).halted then
    return false
  let pair ← fetchPair cfg
  trace cfg pair
  let done ← executePair cfg input pair
  if done then
    change fun m => { m with cycles := m.cycles + 1 }
  return done

end Effect

/-- One step of a machine. -/
def Machine.step (cfg : Config) (input : Input) (m : Machine) : Outcome Bool :=
  (Effect.step cfg input).outcome m

end Chip8
