import Chip8.Text.Blank
import Chip8.Text.Digit

/-!
# Reading integers

An integer may have blanks around it, a sign, and single underscores between its digits. In base
sixteen it may also begin with `0x`, after which an underscore is fine too. Decimal numbers of
more than 4300 digits are refused.
-/

namespace Chip8.Integer

/-- The largest number of decimal digits that is read. -/
def digitLimit : Nat := 4300

/-- The values of digits with single underscores between them; `inside` tells whether a digit has
just been read, so that the text may end or have an underscore. -/
def digitRun? (base : Nat) (inside : Bool) : List Char → Option (List Nat)
  | [] => if inside then some [] else none
  | c :: rest =>
    if c = '_' then
      if inside then digitRun? base false rest else none
    else
      match Digit.valueIn? base c with
      | some d => (digitRun? base true rest).map (d :: ·)
      | none => none

/-- A text without the sign in front of it, and whether that sign is a minus. -/
def splitSign : List Char → Bool × List Char
  | '-' :: rest => (true, rest)
  | '+' :: rest => (false, rest)
  | text => (false, text)

/-- A text without the `0x` in front of it and the underscore after that. -/
def dropMark : List Char → List Char
  | z :: x :: rest =>
    if Digit.decimal? z = some 0 && (x = 'x' || x = 'X') then
      match rest with
      | '_' :: rest => rest
      | _ => rest
    else
      z :: x :: rest
  | text => text

/-- The number with the given sign and digits in a base. -/
def ofDigits (base : Nat) (minus : Bool) (digits : List Nat) : Int :=
  let n : Int := Digit.number base digits
  if minus then -n else n

/-- The decimal integer that a text stands for. -/
def readDecimal? (text : String) : Option Int := do
  let (minus, rest) := splitSign (Blank.trim text.toList)
  let digits ← digitRun? 10 false rest
  if digits.length ≤ digitLimit then some (ofDigits 10 minus digits) else none

/-- The hexadecimal integer that a text stands for. -/
def readHex? (text : String) : Option Int := do
  let (minus, rest) := splitSign (Blank.trim text.toList)
  let digits ← digitRun? 16 false (dropMark rest)
  some (ofDigits 16 minus digits)

example : readHex? " -0x_1F " = some (-31) := by cbv

example : readDecimal? "1_000" = some 1000 := by cbv

example : readDecimal? "1__0" = none := by cbv

end Chip8.Integer
