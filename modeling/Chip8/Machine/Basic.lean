import Chip8.Host
import Chip8.Screen.Basic
import Chip8.Timer.Delay

/-!
# The machine

The state that programs act on: memory, registers, the index register, the program counter, the
stack of return addresses, the delay timer and the screen, with flags for a machine that waits
for a key or was halted by a trap. Registers are integers: instructions keep them in the range of
a byte, except where the clock goes back under the timer.

  * `Machine.initial` : the machine as it is built, with empty memory,
  * `Machine.create`  : the same, if there is room for all its cells,
  * `Machine.reset`   : back to the start, with memory left alone.
-/

namespace Chip8

/-- The state of a machine. -/
structure Machine where
  memory : Array Byte
  registers : Array Int
  /-- The index register. -/
  index : Int
  /-- The program counter. -/
  counter : Int
  /-- Cells for return addresses, of which the first `depth` are in use. -/
  stack : Array Int
  /-- The number of pending calls. -/
  depth : Nat
  timer : DelayTimer
  screen : Screen
  /-- Whether the last look for a key found none. -/
  waiting : Bool
  /-- Whether a trap stopped the machine. -/
  halted : Bool
  /-- The number of instructions executed to the end. -/
  cycles : Nat

namespace Machine

variable (cfg : Config)

/-- A machine at the start of its program, with a given memory and screen. -/
def fresh (now : Float) (memory : Array Byte) (screen : Screen) : Machine where
  memory := memory
  registers := Array.replicate cfg.registerCount.toNat 0
  index := 0
  counter := cfg.programStart
  stack := Array.replicate cfg.stackSize.toNat 0
  depth := 0
  timer := DelayTimer.reset now
  screen := screen
  waiting := false
  halted := false
  cycles := 0

/-- A machine with empty memory and a dark screen. -/
def initial (now : Float) : Machine :=
  fresh cfg now (Array.replicate cfg.memorySize.toNat 0) (Screen.blank cfg.display)

/-- Check that there is room for the memory, the screen, the registers and the stack of a machine,
in this order. Only memory must not have a negative size. -/
def room : Except Fault Unit := do
  let _ ← Capacity.reserve 1 cfg.memorySize
  if cfg.memorySize < 0 then
    throw .negativeMemory
  let _ ← Screen.create cfg.display
  let _ ← Capacity.reserve Screen.cellWidth cfg.registerCount
  let _ ← Capacity.reserve Screen.cellWidth cfg.stackSize
  return ()

/-- A machine with empty memory and a dark screen, if there is room for it. -/
def create (now : Float) : Except Fault Machine := do
  room cfg
  return initial cfg now

/-- The machine at the start of its program again. Only memory survives. -/
def reset (now : Float) (m : Machine) : Machine :=
  fresh cfg now m.memory (m.screen.reset cfg.display)

/-- A reset leaves memory as it is, whatever the time. -/
@[simp] theorem memory_reset (now : Float) (m : Machine) :
    (m.reset cfg now).memory = m.memory := rfl

/-- What the delay timer shows. -/
def delay (now : Float) (m : Machine) : Except Fault Int := m.timer.read cfg.timerFrequency now

/-- The return addresses of the pending calls, the oldest one first. -/
def pending (m : Machine) : List Int := m.stack.toList.take m.depth

end Machine

end Chip8
