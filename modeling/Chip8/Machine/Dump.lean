import Chip8.Machine.Basic
import Chip8.Text.Numeral

/-!
# The state of a machine as text

A short report for logs: the program counter, the index register, the number of pending calls,
the delay timer, the sixteen registers in four rows and the three flags.
-/

namespace Chip8.Machine

/-- One register: its number and its content. -/
def dumpRegister (m : Machine) (x : Nat) : Except Fault String :=
  match m.registers[x]? with
  | some v => .ok ("V" ++ Numeral.upperHex 1 x ++ "=$" ++ Numeral.upperHex 2 v)
  | none => .error .outOfRange

/-- Four registers from number `x` on. -/
def dumpRow (m : Machine) (x : Nat) : Except Fault String := do
  let entries ← [x, x + 1, x + 2, x + 3].mapM m.dumpRegister
  return "  " ++ " ".intercalate entries

/-- The report of a machine at a clock reading. -/
def dump (cfg : Config) (now : Float) (m : Machine) : Except Fault String := do
  let delay ← m.delay cfg now
  let rows ← [0, 4, 8, 12].mapM m.dumpRow
  return "\n".intercalate (
    ["PC: $" ++ Numeral.upperHex 4 m.counter ++ "  I: $" ++ Numeral.upperHex 4 m.index
        ++ "  SP: " ++ Numeral.decimal m.depth,
      "DT: " ++ Numeral.paddedDecimal 3 delay,
      "Registers:"]
    ++ rows
    ++ ["Hi-res: " ++ Numeral.truth m.screen.extended,
      "Halted: " ++ Numeral.truth m.halted,
      "Waiting: " ++ Numeral.truth m.waiting])

end Chip8.Machine
