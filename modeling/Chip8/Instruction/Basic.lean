import Chip8.Byte

/-!
# Instructions

The instruction set of the machine with its display extension, as data. An instruction carries
exactly the operands that its mnemonic shows: the shifts name one register, and a jump names a
twelve-bit address. The two forms of a comparison, with a byte and with a register, and the two
polarities of every skip are told apart by small enumerations, so that a fact about skips is
proved once.
-/

namespace Chip8

/-- What `8XYN` puts into register X, computed from registers X and Y. -/
inductive Operator where
  /-- Y itself. -/
  | copy
  /-- Bitwise disjunction. -/
  | or
  /-- Bitwise conjunction. -/
  | and
  /-- Bitwise exclusive or. -/
  | xor
  /-- X plus Y, with the carry in the flag register. -/
  | add
  /-- X minus Y, with the borrow in the flag register. -/
  | sub
  /-- Y minus X, with the borrow in the flag register. -/
  | subFrom
  deriving DecidableEq, Repr

/-- The direction of a shift by one bit; the bit shifted out goes to the flag register. -/
inductive Shift where
  | right
  | left
  deriving DecidableEq, Repr

/-- What a register is compared with. -/
inductive Comparand where
  | byte (nn : Byte)
  | register (y : Nibble)
  deriving DecidableEq, Repr

/-- One instruction. Registers are numbered by nibbles. -/
inductive Instruction where
  /-- `00E0`: clear the screen. -/
  | clear
  /-- `00EE`: return from a call. -/
  | ret
  /-- `00FE` and `00FF`: switch to low or, with `true`, to high resolution. -/
  | resolution (high : Bool)
  /-- `00CN`: scroll the screen down by `n` pixels. -/
  | scroll (n : Nibble)
  /-- `1NNN`: continue at an address. -/
  | jump (target : Address)
  /-- `2NNN`: call the code at an address. -/
  | call (target : Address)
  /-- `3XNN`, `4XNN`, `5XY0` and `9XY0`: skip the next instruction if register X equals the
  other operand or, with `false`, if it differs from it. -/
  | skip (equal : Bool) (x : Nibble) (other : Comparand)
  /-- `6XNN`: put a byte into register X. -/
  | load (x : Nibble) (nn : Byte)
  /-- `7XNN`: add a byte to register X, without a flag. -/
  | add (x : Nibble) (nn : Byte)
  /-- `8XY0` to `8XY5` and `8XY7`: combine registers X and Y into X. -/
  | combine (op : Operator) (x y : Nibble)
  /-- `8XY6` and `8XYE`: shift register X by one bit. -/
  | shift (dir : Shift) (x : Nibble)
  /-- `ANNN`: put an address into the index register. -/
  | index (target : Address)
  /-- `BNNN`: continue at an address plus register 0. -/
  | jumpOffset (base : Address)
  /-- `CXNN`: put a random byte, masked, into register X. -/
  | random (x : Nibble) (mask : Byte)
  /-- `DXYN`: draw the sprite of `n` rows at the index register. -/
  | draw (x y n : Nibble)
  /-- `EX9E` and `EXA1`: skip the next instruction if the key in register X is down or, with
  `false`, if it is up. -/
  | skipKey (down : Bool) (x : Nibble)
  /-- `FX07`: read the delay timer into register X. -/
  | readTimer (x : Nibble)
  /-- `FX0A`: wait for a key and put its number into register X. -/
  | awaitKey (x : Nibble)
  /-- `FX15`: set the delay timer from register X. -/
  | setTimer (x : Nibble)
  /-- `FX18`: beep once. -/
  | beep (x : Nibble)
  /-- `FX1E`: add register X to the index register. -/
  | advanceIndex (x : Nibble)
  /-- `FX29`: point the index register at the glyph of register X. -/
  | glyph (x : Nibble)
  /-- `FX33`: store the three decimal digits of register X at the index register. -/
  | storeDigits (x : Nibble)
  /-- `FX55`: store registers 0 to X at the index register. -/
  | storeRegisters (x : Nibble)
  /-- `FX65`: load registers 0 to X from the index register. -/
  | loadRegisters (x : Nibble)
  deriving DecidableEq, Repr

end Chip8
