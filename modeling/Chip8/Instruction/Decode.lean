import Chip8.Instruction.Basic

/-!
# Decoding

`Instruction.decode` reads an instruction from the two bytes fetched at the program counter. It
looks at the upper nibble of the first byte and, within a family, at the rest; byte pairs that
belong to no instruction give `none`.
-/

namespace Chip8

/-- The operation of `8XYN`, by its last nibble, for those that combine two registers. -/
def Operator.ofNibble? : Nibble → Option Operator
  | 0x0 => some .copy
  | 0x1 => some .or
  | 0x2 => some .and
  | 0x3 => some .xor
  | 0x4 => some .add
  | 0x5 => some .sub
  | 0x7 => some .subFrom
  | _ => none

/-- The shift of `8XYN`, by its last nibble. -/
def Shift.ofNibble? : Nibble → Option Shift
  | 0x6 => some .right
  | 0xE => some .left
  | _ => none

namespace Instruction

/-- The instructions of the family `00NN`. -/
def decodeSystem (argument : Byte) : Option Instruction :=
  if argument = 0xE0 then some .clear
  else if argument = 0xEE then some .ret
  else if argument = 0xFE then some (.resolution false)
  else if argument = 0xFF then some (.resolution true)
  else if argument.high = 0xC then some (.scroll argument.low)
  else none

/-- The instructions of the family `8XYN`. -/
def decodeArithmetic (x y n : Nibble) : Option Instruction :=
  match Operator.ofNibble? n, Shift.ofNibble? n with
  | some op, _ => some (.combine op x y)
  | none, some dir => some (.shift dir x)
  | none, none => none

/-- The instructions of the family `EXNN`. -/
def decodeKeys (x : Nibble) (argument : Byte) : Option Instruction :=
  if argument = 0x9E then some (.skipKey true x)
  else if argument = 0xA1 then some (.skipKey false x)
  else none

/-- The instructions of the family `FXNN`. -/
def decodeMisc (x : Nibble) (argument : Byte) : Option Instruction :=
  if argument = 0x07 then some (.readTimer x)
  else if argument = 0x0A then some (.awaitKey x)
  else if argument = 0x15 then some (.setTimer x)
  else if argument = 0x18 then some (.beep x)
  else if argument = 0x1E then some (.advanceIndex x)
  else if argument = 0x29 then some (.glyph x)
  else if argument = 0x33 then some (.storeDigits x)
  else if argument = 0x55 then some (.storeRegisters x)
  else if argument = 0x65 then some (.loadRegisters x)
  else none

/-- The instruction that two bytes stand for, if they stand for one. -/
def decode (opcode argument : Byte) : Option Instruction :=
  let x := opcode.low
  let y := argument.high
  let n := argument.low
  let nnn := Address.ofParts x argument
  match opcode.high with
  | 0x0 => if opcode = 0 then decodeSystem argument else none
  | 0x1 => some (.jump nnn)
  | 0x2 => some (.call nnn)
  | 0x3 => some (.skip true x (.byte argument))
  | 0x4 => some (.skip false x (.byte argument))
  | 0x5 => if n = 0 then some (.skip true x (.register y)) else none
  | 0x6 => some (.load x argument)
  | 0x7 => some (.add x argument)
  | 0x8 => decodeArithmetic x y n
  | 0x9 => if n = 0 then some (.skip false x (.register y)) else none
  | 0xA => some (.index nnn)
  | 0xB => some (.jumpOffset nnn)
  | 0xC => some (.random x argument)
  | 0xD => some (.draw x y n)
  | 0xE => decodeKeys x argument
  | _ => decodeMisc x argument

end Instruction

end Chip8
