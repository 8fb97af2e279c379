/-!
# Numbers as text

Every number the program prints goes through this module. Hexadecimal numbers are padded with
zeros and decimal ones with blanks; a minus sign comes in front of the zeros and counts in the
width, so minus one in a field of three hexadecimal digits reads `-01`.
-/

namespace Chip8.Numeral

/-- The digits of `n` in a base of at most sixteen, with lower-case letters. -/
def digits (base n : Nat) : List Char := Nat.toDigits base n

/-- A text made at least `width` characters long by repeating `fill` in front of it. -/
def padLeft (fill : Char) (width : Nat) (text : List Char) : List Char :=
  List.replicate (width - text.length) fill ++ text

/-- The characters of `n` in hexadecimal: a sign if it is negative, then zeros up to `width`. -/
def hexChars (width : Nat) (n : Int) : List Char :=
  if n < 0 then '-' :: padLeft '0' (width - 1) (digits 16 n.natAbs)
  else padLeft '0' width (digits 16 n.natAbs)

/-- `n` in lower-case hexadecimal, at least `width` characters long. -/
def hex (width : Nat) (n : Int) : String := String.ofList (hexChars width n)

/-- `n` in upper-case hexadecimal, at least `width` characters long. -/
def upperHex (width : Nat) (n : Int) : String :=
  String.ofList ((hexChars width n).map Char.toUpper)

/-- The characters of `n` in decimal. -/
def decimalChars (n : Int) : List Char :=
  if n < 0 then '-' :: digits 10 n.natAbs else digits 10 n.natAbs

/-- `n` in decimal. -/
def decimal (n : Int) : String := String.ofList (decimalChars n)

/-- `n` in decimal, made at least `width` characters long by blanks in front. -/
def paddedDecimal (width : Nat) (n : Int) : String :=
  String.ofList (padLeft ' ' width (decimalChars n))

/-- `True` or `False`. -/
def truth (b : Bool) : String := if b then "True" else "False"

example : hex 3 (-1) = "-01" := by decide

example : hex 4 0x20a = "020a" := by decide

example : upperHex 2 0x1ff = "1FF" := by decide

example : paddedDecimal 3 (-7) = " -7" := by decide

theorem length_padLeft (fill : Char) (width : Nat) (text : List Char) :
    (padLeft fill width text).length = max width text.length := by
  simp only [padLeft, List.length_append, List.length_replicate]
  omega

end Chip8.Numeral
