import Chip8.Text.Numeral

/-!
# What can go wrong

A `Trap` is an error of the running program: a byte pair that is no instruction, a call with a
full stack, a return with an empty one. It records where the pair was fetched and the pair
itself. A `Fault` is any reason why an operation of the machine does not finish; apart from
traps these come from unusual configurations, host clocks and command lines.
-/

namespace Chip8

/-- The three ways in which a program can break the rules of the instruction set. -/
inductive TrapKind where
  | illegal
  | stackOverflow
  | stackUnderflow
  deriving DecidableEq, Repr

/-- How the kind of a trap begins its message. -/
def TrapKind.reason : TrapKind → String
  | .illegal => "Illegal opcode"
  | .stackOverflow => "Stack overflow on"
  | .stackUnderflow => "Stack underflow on"

/-- An error of the running program, with the address and the two bytes of the instruction. -/
structure Trap where
  kind : TrapKind
  address : Int
  opcode : Int
  argument : Int
  deriving DecidableEq, Repr

/-- The text of a trap: its reason, the two bytes and the address, all in hexadecimal. -/
def Trap.message (t : Trap) : String :=
  t.kind.reason ++ " " ++ Numeral.hex 2 t.opcode ++ Numeral.hex 2 t.argument ++ " at "
    ++ Numeral.hex 4 t.address

/-- Why an operation did not finish. -/
inductive Fault where
  /-- The program broke the rules of the instruction set. -/
  | trap (t : Trap)
  /-- A program image of `size` bytes does not fit into the `limit` bytes left for it. -/
  | programTooLarge (size : Nat) (limit : Int)
  /-- Memory cannot have a negative size. -/
  | negativeMemory
  /-- A cell, register or pixel number lies outside its row. -/
  | outOfRange
  /-- A number was to be wrapped or divided by zero. -/
  | divisionByZero
  /-- A value outside 0 to 255 was to be stored in memory. -/
  | notAByte
  /-- The time since the timer was set is no number. -/
  | undefinedTicks
  /-- The time since the timer was set is infinite, or the timer's frequency is out of range. -/
  | unboundedTicks
  /-- A pause between instructions is negative or no number. -/
  | badPause
  /-- A pause between instructions is longer than the host can wait. -/
  | pauseTooLong
  /-- A size is no machine word. -/
  | sizeOutOfRange
  /-- There is no room for cells of some size. -/
  | outOfMemory
  /-- It was not said how many steps to do. -/
  | noStepCount
  deriving DecidableEq, Repr

namespace Fault

/-- The text of a fault, for those that have one. -/
def message? : Fault → Option String
  | .trap t => some t.message
  | .programTooLarge size limit =>
    some ("Program too large: " ++ Numeral.decimal size ++ " bytes (max "
      ++ Numeral.decimal limit ++ ")")
  | _ => none

/-- `a` wrapped into the range of `n`, toward minus infinity; wrapping by zero is a fault. -/
def modulo (a n : Int) : Except Fault Int :=
  if n = 0 then .error .divisionByZero else .ok (a.fmod n)

/-- How often `n` goes into `a`, toward minus infinity; dividing by zero is a fault. -/
def quotient (a n : Int) : Except Fault Int :=
  if n = 0 then .error .divisionByZero else .ok (a.fdiv n)

/-- Wrapping into a positive range always succeeds, and gives the Euclidean remainder. -/
theorem modulo_of_pos (a : Int) {n : Int} (h : 0 < n) : modulo a n = .ok (a % n) := by
  rw [modulo, if_neg (Int.ne_of_gt h), Int.fmod_eq_emod_of_nonneg a (Int.le_of_lt h)]

/-- An integer wrapped into a range of natural numbers. -/
theorem exists_modulo (a : Int) {n : Nat} (h : 0 < n) :
    ∃ r < n, a % n = r ∧ modulo a n = .ok r := by
  have hn : (0 : Int) < n := Int.natCast_pos.2 h
  have hlt := Int.emod_lt_of_pos a hn
  obtain ⟨r, hr⟩ := Int.eq_ofNat_of_zero_le (Int.emod_nonneg a (Int.ne_of_gt hn))
  exact ⟨r, by omega, hr, by rw [modulo_of_pos a hn, hr]⟩

end Fault

end Chip8
