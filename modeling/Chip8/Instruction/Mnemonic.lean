import Chip8.Byte
import Chip8.Text.Numeral

/-!
# Mnemonics

The assembler text of a byte pair. A `Mnemonic` is a name with a list of operands, and its text
is the name, a blank and the operands separated by commas. `Mnemonic.ofBytes?` looks at the upper
nibble of the first byte and then at the rest; the families `8XYN` and `FXNN` find their names in
tables. Byte pairs that are no instruction are shown as data, under the name `.word`.
-/

namespace Chip8

/-- An operand as it is written in a listing. -/
inductive Operand where
  /-- A register: `v` and its digit. -/
  | register (x : Nibble)
  /-- The registers from 0 up to one of them. -/
  | registersTo (x : Nibble)
  /-- A byte: two hexadecimal digits. -/
  | byte (nn : Byte)
  /-- An address: three hexadecimal digits. -/
  | address (a : Address)
  /-- A number of sprite rows: one hexadecimal digit. -/
  | rows (n : Nibble)
  /-- A number of pixels to scroll by: a decimal number. -/
  | pixels (n : Nibble)
  /-- Two bytes of data: four hexadecimal digits. -/
  | word (opcode argument : Byte)
  deriving DecidableEq, Repr

/-- The text of an operand. -/
def Operand.text : Operand → String
  | .register x => "v" ++ Numeral.hex 1 x.val
  | .registersTo x => "v0-v" ++ Numeral.hex 1 x.val
  | .byte nn => Numeral.hex 2 nn.toNat
  | .address a => Numeral.hex 3 a.val
  | .rows n => Numeral.hex 1 n.val
  | .pixels n => Numeral.decimal n.val
  | .word opcode argument => Numeral.hex 2 opcode.toNat ++ Numeral.hex 2 argument.toNat

/-- A name and its operands. -/
structure Mnemonic where
  name : String
  operands : List Operand
  deriving DecidableEq, Repr

/-- The name alone, or the name, a blank and the operands separated by commas. -/
def Mnemonic.text (m : Mnemonic) : String :=
  match m.operands with
  | [] => m.name
  | ops => m.name ++ " " ++ ",".intercalate (ops.map Operand.text)

namespace Mnemonic

/-- The names of the operations `8XYN`, by their last nibble. -/
def arithmeticNames : List (Nat × String) := [
  (0x0, "mov"), (0x1, "or"), (0x2, "and"), (0x3, "xor"), (0x4, "add"), (0x5, "sub"),
  (0x6, "shr"), (0x7, "rsb"), (0xE, "shl")]

/-- The names of the operations `FXNN`, by their last byte. -/
def miscNames : List (Byte × String) := [
  (0x07, "gdelay"), (0x0A, "key"), (0x15, "sdelay"), (0x18, "ssound"), (0x1E, "adi"),
  (0x29, "font"), (0x33, "bcd"), (0x55, "str"), (0x65, "ldr")]

/-- How the family `00NN` is written. -/
def ofSystem? (argument : Byte) : Option Mnemonic :=
  if argument = 0xE0 then some ⟨"cls", []⟩
  else if argument = 0xEE then some ⟨"rts", []⟩
  else if argument = 0xFE then some ⟨"low", []⟩
  else if argument = 0xFF then some ⟨"high", []⟩
  else if argument.high.val = 0xC then some ⟨"scdown", [.pixels argument.low]⟩
  else none

/-- How the family `8XYN` is written. A shift shows only the register that it shifts. -/
def ofArithmetic? (x y n : Nibble) : Option Mnemonic :=
  (arithmeticNames.lookup n.val).map fun name =>
    if name = "shr" ∨ name = "shl" then ⟨name, [.register x]⟩
    else ⟨name, [.register x, .register y]⟩

/-- How the family `EXNN` is written. -/
def ofKeys? (x : Nibble) (argument : Byte) : Option Mnemonic :=
  if argument = 0x9E then some ⟨"skpr", [.register x]⟩
  else if argument = 0xA1 then some ⟨"skup", [.register x]⟩
  else none

/-- How the family `FXNN` is written. The block moves show all their registers. -/
def ofMisc? (x : Nibble) (argument : Byte) : Option Mnemonic :=
  (miscNames.lookup argument).map fun name =>
    if name = "str" ∨ name = "ldr" then ⟨name, [.registersTo x]⟩
    else ⟨name, [.register x]⟩

/-- How the instruction that two bytes stand for is written, if they stand for one. -/
def ofBytes? (opcode argument : Byte) : Option Mnemonic :=
  let x := opcode.low
  let y := argument.high
  let n := argument.low
  let nnn := Address.ofParts x argument
  match opcode.high with
  | 0x0 => if opcode = 0 then ofSystem? argument else none
  | 0x1 => some ⟨"jmp", [.address nnn]⟩
  | 0x2 => some ⟨"jsr", [.address nnn]⟩
  | 0x3 => some ⟨"skeq", [.register x, .byte argument]⟩
  | 0x4 => some ⟨"skne", [.register x, .byte argument]⟩
  | 0x5 => if n.val = 0 then some ⟨"skeq", [.register x, .register y]⟩ else none
  | 0x6 => some ⟨"mov", [.register x, .byte argument]⟩
  | 0x7 => some ⟨"add", [.register x, .byte argument]⟩
  | 0x8 => ofArithmetic? x y n
  | 0x9 => if n.val = 0 then some ⟨"skne", [.register x, .register y]⟩ else none
  | 0xA => some ⟨"mvi", [.address nnn]⟩
  | 0xB => some ⟨"jmi", [.address nnn]⟩
  | 0xC => some ⟨"rand", [.register x, .byte argument]⟩
  | 0xD => some ⟨"sprite", [.register x, .register y, .rows n]⟩
  | 0xE => ofKeys? x argument
  | _ => ofMisc? x argument

/-- How two bytes that are no instruction are written. -/
def word (opcode argument : Byte) : Mnemonic := ⟨".word", [.word opcode argument]⟩

/-- How a byte pair is written: as its instruction, or else as data. -/
def ofBytes (opcode argument : Byte) : Mnemonic :=
  (ofBytes? opcode argument).getD (word opcode argument)

end Mnemonic

/-- The assembler text of a byte pair. -/
def assemblerText (opcode argument : Byte) : String := (Mnemonic.ofBytes opcode argument).text

end Chip8
