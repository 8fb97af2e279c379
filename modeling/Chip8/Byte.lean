/-!
# Bytes, nibbles and addresses

The fixed-width words of the machine: a `Byte` of memory, the `Nibble`s that opcodes are cut
into, and the twelve-bit `Address` an instruction can name. Registers and the program counter
are kept as integers elsewhere, so the conversions from integers live here:

  * `Byte.ofInt?` : the byte with a given value, if the value fits,
  * `Byte.wrap`   : the value modulo 256,
  * `Address.wrap` : the value modulo 4096, as an integer.
-/

namespace Chip8

/-- Eight bits of memory. -/
abbrev Byte := UInt8

/-- Four bits: one hexadecimal digit of an opcode, a register number or a row count. -/
abbrev Nibble := Fin 16

/-- A twelve-bit address as it stands in an instruction. -/
abbrev Address := Fin 4096

namespace Byte

/-- The largest byte. -/
def limit : Nat := 255

/-- The upper hexadecimal digit. -/
def high (b : Byte) : Nibble := ⟨b.toNat / 16, by have := b.toNat_lt; omega⟩

/-- The lower hexadecimal digit. -/
def low (b : Byte) : Nibble := ⟨b.toNat % 16, by omega⟩

/-- The byte with the given upper and lower digits. -/
def ofNibbles (hi lo : Nibble) : Byte := UInt8.ofNat (16 * hi + lo)

/-- The bit in column `col`, where column 0 is the most significant bit. -/
def bit (b : Byte) (col : Nat) : Bool := b.toNat.testBit (7 - col)

/-- The byte whose value is `v`, if there is one. -/
def ofInt? (v : Int) : Option Byte :=
  if 0 ≤ v ∧ v < 256 then some (UInt8.ofNat v.toNat) else none

/-- The byte whose value is `v` modulo 256. -/
def wrap (v : Int) : Byte := UInt8.ofNat (v % 256).toNat

/-- A column of a byte is the bit under a mask that moves to the right from the leftmost bit. -/
theorem bit_iff (b : Byte) {col : Nat} (h : col < 8) :
    b.bit col = true ↔ b.toNat &&& (0x80 >>> col) ≠ 0 := by
  have hmask : ∀ c < 8, 0x80 >>> c = 1 <<< (7 - c) := by decide
  have hunder (i : Nat) : (b.toNat &&& (0x80 >>> col)).testBit i
      = (b.toNat.testBit i && decide (i = 7 - col)) := by
    rw [hmask col h, Nat.testBit_and, Nat.one_shiftLeft, Nat.testBit_two_pow]
    simp only [eq_comm]
  constructor
  · intro hbit hzero
    have hset := hunder (7 - col)
    rw [hzero, Nat.zero_testBit, ← bit, hbit] at hset
    simp at hset
  · intro hne
    obtain ⟨i, hi⟩ := Nat.exists_testBit_of_ne_zero hne
    rw [hunder, Bool.and_eq_true, decide_eq_true_eq] at hi
    rw [bit, ← hi.2]
    exact hi.1

/-- A byte is the byte with its value. -/
theorem ofInt?_toNat (b : Byte) : ofInt? b.toNat = some b := by
  have := b.toNat_lt
  simp [ofInt?]
  omega

/-- A value that no byte has is not made one. -/
theorem ofInt?_of_ne {v : Int} (h : ∀ b : Byte, v ≠ b.toNat) : ofInt? v = none := by
  rw [ofInt?, if_neg]
  intro hfits
  apply h (UInt8.ofNat v.toNat)
  rw [UInt8.toNat_ofNat']
  omega

/-- What is left of an integer in a byte is its remainder. -/
theorem toNat_wrap (v : Int) : ((wrap v).toNat : Int) = v % 256 := by
  simp only [wrap, UInt8.toNat_ofNat']
  omega

/-- A byte is made of its two digits. -/
theorem ofNibbles_high_low (b : Byte) : ofNibbles b.high b.low = b := by
  have := b.toNat_lt
  apply UInt8.toNat_inj.1
  simp only [ofNibbles, high, low, UInt8.toNat_ofNat']
  omega

@[simp] theorem high_ofNibbles (hi lo : Nibble) : (ofNibbles hi lo).high = hi := by
  have := lo.isLt
  have := hi.isLt
  apply Fin.ext
  simp only [ofNibbles, high, UInt8.toNat_ofNat']
  omega

@[simp] theorem low_ofNibbles (hi lo : Nibble) : (ofNibbles hi lo).low = lo := by
  have := lo.isLt
  have := hi.isLt
  apply Fin.ext
  simp only [ofNibbles, low, UInt8.toNat_ofNat']
  omega

end Byte

namespace Address

/-- The largest address. -/
def limit : Nat := 4095

/-- The address made of a nibble above a byte. -/
def ofParts (top : Nibble) (rest : Byte) : Address :=
  ⟨256 * top + rest.toNat, by have := rest.toNat_lt; have := top.isLt; omega⟩

/-- An integer reduced to the twelve bits of an address. -/
def wrap (a : Int) : Int := a % 4096

theorem wrap_nonneg (a : Int) : 0 ≤ wrap a := Int.emod_nonneg a (by decide)

theorem wrap_lt (a : Int) : wrap a < 4096 := Int.emod_lt_of_pos a (by decide)

end Address

end Chip8
