import Chip8.Instruction.Mnemonic
import Chip8.Fault

/-!
# Log messages

Everything the machine and its runner report, as data. A `Message` knows its level and which of
the two reported it; `Message.line` is how it appears in a log.
-/

namespace Chip8

/-- How important a message is. -/
inductive Level where
  | debug
  | info
  | error
  deriving DecidableEq, Repr

/-- The name of a level. -/
def Level.name : Level → String
  | .debug => "DEBUG"
  | .info => "INFO"
  | .error => "ERROR"

/-- What is reported. -/
inductive Message where
  /-- A program image of `size` bytes went into memory at `start`. -/
  | loaded (size : Nat) (start : Int)
  /-- A program image of `size` bytes was read from the file `name`. -/
  | readFile (name : String) (size : Nat)
  /-- The byte pair at an address is about to be executed. -/
  | traced (address : Int) (opcode argument : Byte)
  /-- The program broke the rules of the instruction set. -/
  | trapped (t : Trap)
  /-- The program waits at an address for a key that will not come. -/
  | stuck (address : Int)
  /-- The program beeped. -/
  | beep
  /-- The runner is about to execute a program of `size` bytes from the file `name`. -/
  | ready (name : String) (size : Nat) (steps : Int)
  /-- The runner executed `count` instructions. -/
  | executed (count : Nat)
  /-- The runner stopped at a trap. -/
  | stopped (t : Trap)
  /-- The state of the machine at the end. -/
  | final (dump : String)
  deriving DecidableEq, Repr

namespace Message

/-- The level of a message. -/
def level : Message → Level
  | .loaded .. => .debug
  | .traced .. => .debug
  | .trapped .. => .error
  | .stopped .. => .error
  | _ => .info

/-- Who reports a message: the machine or its runner. -/
def source : Message → String
  | .loaded .. => "chip8_cpu"
  | .readFile .. => "chip8_cpu"
  | .traced .. => "chip8_cpu"
  | .trapped .. => "chip8_cpu"
  | _ => "chip8_headless"

/-- What a message says. -/
def text : Message → String
  | .loaded size start =>
    "Loaded " ++ Numeral.decimal size ++ " bytes at 0x" ++ Numeral.hex 3 start
  | .readFile name size => "Loading " ++ name ++ " (" ++ Numeral.decimal size ++ " bytes)"
  | .traced address opcode argument =>
    "PC 0x" ++ Numeral.hex 3 address ++ ": " ++ Numeral.hex 2 opcode.toNat
      ++ Numeral.hex 2 argument.toNat ++ "  " ++ assemblerText opcode argument
  | .trapped t => t.message
  | .stuck address => "Waiting for key at 0x" ++ Numeral.hex 3 address ++ ", stopping"
  | .beep => "Beep"
  | .ready name size steps =>
    "Loaded " ++ name ++ " (" ++ Numeral.decimal size ++ " bytes), running "
      ++ Numeral.decimal steps ++ " steps"
  | .executed count => "Executed " ++ Numeral.decimal count ++ " instructions"
  | .stopped t => "Emulation halted: " ++ t.message
  | .final dump => "Machine state:\n" ++ dump

/-- A message as it appears in a log: its level, its source and what it says. -/
def line (m : Message) : String := m.level.name ++ " " ++ m.source ++ ": " ++ m.text

end Message

end Chip8
