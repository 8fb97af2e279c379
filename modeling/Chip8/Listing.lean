import Chip8.Instruction.Mnemonic

/-!
# Program listings

A listing has one row for every two bytes of a program image: the address, the word the two
bytes make and its assembler text. The last byte of an image of odd length has a row to itself.
`image` collects the bytes that the rows of a listing show.
-/

namespace Chip8

/-- One row of a listing. -/
structure Row where
  address : Int
  word : Nat
  text : String
  deriving DecidableEq, Repr

/-- The number that two bytes make, the first one being the upper half. -/
def wordOf (opcode argument : Byte) : Nat := 256 * opcode.toNat + argument.toNat

namespace Row

/-- The row of a byte pair. -/
def pair (address : Int) (opcode argument : Byte) : Row :=
  ⟨address, wordOf opcode argument, assemblerText opcode argument⟩

/-- The row of a byte that has no partner. -/
def single (address : Int) (b : Byte) : Row :=
  ⟨address, b.toNat, ".byte " ++ Numeral.hex 2 b.toNat⟩

/-- A row as a line of text: the address and the word in hexadecimal, then the text. -/
def line (r : Row) : String :=
  Numeral.hex 4 r.address ++ ": " ++ Numeral.hex 4 r.word ++ "  " ++ r.text

/-- Whether a row shows a single byte. -/
def isSingle (r : Row) : Bool := ".byte".toList.isPrefixOf r.text.toList

/-- The bytes that a row shows. -/
def bytes (r : Row) : List Byte :=
  if r.isSingle then [UInt8.ofNat r.word] else [UInt8.ofNat (r.word / 256), UInt8.ofNat r.word]

end Row

/-- The listing of an image whose first byte has the address `origin`. -/
def listing (origin : Int) : List Byte → List Row
  | [] => []
  | [b] => [Row.single origin b]
  | opcode :: argument :: rest => Row.pair origin opcode argument :: listing (origin + 2) rest

/-- The program image that the rows of a listing show. -/
def image (rows : List Row) : List Byte := rows.flatMap Row.bytes

end Chip8
