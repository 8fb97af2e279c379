import Chip8.Text.Integer

/-!
# Reading doubles

A decimal number may have blanks around it, a sign, a point, an exponent and single underscores
between its digits. `inf`, `infinity` and `nan` are read too, in either case. The result is the
double nearest to the number.
-/

namespace Chip8.Decimal

/-- Whether every underscore stands between two digits; `inside` tells whether a digit has just
been read. -/
def underscoresFit (inside : Bool) : List Char → Bool
  | [] => true
  | '_' :: rest =>
    match rest with
    | c :: _ => inside && Digit.isDecimal c && underscoresFit false rest
    | [] => false
  | c :: rest => underscoresFit (Digit.isDecimal c) rest

/-- The values of the decimal digits at the start of a text, and the rest. -/
def leadingDigits : List Char → List Nat × List Char
  | [] => ([], [])
  | c :: rest =>
    match Digit.decimal? c with
    | some d =>
      let (ds, rest) := leadingDigits rest
      (d :: ds, rest)
    | none => ([], c :: rest)

/-- The digits after a point, if there is a point, and the rest. -/
def fraction : List Char → List Nat × List Char
  | '.' :: rest => leadingDigits rest
  | text => ([], text)

/-- The exponent that a text consists of; no text is the exponent zero. -/
def exponent? : List Char → Option Int
  | [] => some 0
  | c :: rest =>
    if c = 'e' || c = 'E' then
      let (minus, rest) := Integer.splitSign rest
      match leadingDigits rest with
      | ([], _) => none
      | (ds, []) => some (Integer.ofDigits 10 minus ds)
      | (_, _ :: _) => none
    else
      none

/-- The double nearest to `m` times ten to the power `e`. Beyond the range of doubles on either
side the exponent no longer matters. -/
def scaled (m : Nat) (e : Int) : Float :=
  let magnitude := e + (Nat.toDigits 10 m).length
  if m = 0 || magnitude < -400 then 0.0
  else if 400 < magnitude then 1.0 / 0.0
  else Float.ofScientific m (e < 0) e.natAbs

/-- The double for a number without a sign. -/
def magnitude? (text : List Char) : Option Float :=
  let word := text.map Char.toLower
  if word = "inf".toList || word = "infinity".toList then some (1.0 / 0.0)
  else if word = "nan".toList then some (0.0 / 0.0)
  else
    let (whole, rest) := leadingDigits text
    let (part, rest) := fraction rest
    match whole ++ part, exponent? rest with
    | [], _ => none
    | _, none => none
    | digits, some e => some (scaled (Digit.number 10 digits) (e - part.length))

/-- The double that a text stands for. -/
def read? (text : String) : Option Float :=
  let text := Blank.trim text.toList
  if underscoresFit false text then
    let (minus, rest) := Integer.splitSign (text.filter (· != '_'))
    (magnitude? rest).map fun x => if minus then -x else x
  else
    none

end Chip8.Decimal
