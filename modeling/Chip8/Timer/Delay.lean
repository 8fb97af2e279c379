import Chip8.Byte
import Chip8.Fault
import Chip8.Timer.Floor

/-!
# The delay timer

The timer does not run. It remembers the value it was set to and the clock reading of that
moment, and a read works out how many ticks have passed since. The value is a byte, and a read
never goes below zero.
-/

namespace Chip8

/-- The whole ticks between two clock readings, for a number of ticks in a second. A time span
that goes back gives a negative number. -/
def ticksBetween (frequency : Int) (start now : Float) : Except Fault Int :=
  let rate := Float.ofInt frequency
  if Double.finite rate then
    let ticks := (now - start) * rate
    match Double.floor? ticks with
    | some n => .ok n
    | none => .error (if ticks.isNaN then .undefinedTicks else .unboundedTicks)
  else
    .error .unboundedTicks

/-- The value the timer was last set to, and when. -/
structure DelayTimer where
  value : Byte
  setTime : Float

namespace DelayTimer

/-- The timer set to a value, of which the lowest byte counts. -/
def start (value : Int) (now : Float) : DelayTimer := ⟨Byte.wrap value, now⟩

/-- The timer at rest. -/
def reset (now : Float) : DelayTimer := ⟨0, now⟩

/-- What is left of the value. -/
def read (frequency : Int) (now : Float) (t : DelayTimer) : Except Fault Int := do
  let ticks ← ticksBetween frequency t.setTime now
  return max 0 (t.value.toNat - ticks)

/-- What a read shows, if the ticks since the setting can be counted. -/
theorem read_of_ticks {frequency : Int} {now : Float} {t : DelayTimer} {k : Int}
    (h : ticksBetween frequency t.setTime now = .ok k) :
    t.read frequency now = .ok (max 0 (t.value.toNat - k)) := by
  rw [read, h]
  rfl

/-- A read that happens is never negative. -/
theorem read_nonneg {frequency : Int} {now : Float} {t : DelayTimer} {v : Int}
    (h : t.read frequency now = .ok v) : 0 ≤ v := by
  cases ht : ticksBetween frequency t.setTime now with
  | error f => rw [read, ht] at h; cases h
  | ok k => rw [read_of_ticks ht] at h; cases h; exact Int.le_max_left ..

end DelayTimer

end Chip8
