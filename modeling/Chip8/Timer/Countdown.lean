import Chip8.Timer.Delay

/-!
# The delay timer as a counter

The delay timer works out what is left of its value when it is read. A `Countdown` is the counter
that it stands for, which goes down by one with every tick and stops at zero. A read shows the
counter after the ticks that have passed (`DelayTimer.read_eq_countdown`).
-/

namespace Chip8

/-- A counter that goes down with every tick. -/
structure Countdown where
  left : Nat
  deriving DecidableEq, Repr

namespace Countdown

/-- One tick: one less, or still zero. -/
def tick (c : Countdown) : Countdown := ⟨c.left - 1⟩

/-- So many ticks. -/
def after (c : Countdown) : Nat → Countdown
  | 0 => c
  | n + 1 => (c.tick).after n

theorem left_after (c : Countdown) (n : Nat) : (c.after n).left = c.left - n := by
  induction n generalizing c with
  | zero => rfl
  | succ n ih =>
    rw [after, ih]
    show c.left - 1 - n = c.left - (n + 1)
    omega

end Countdown

namespace DelayTimer

/-- The counter that a timer starts. -/
def countdown (t : DelayTimer) : Countdown := ⟨t.value.toNat⟩

/-- A read shows the counter after the ticks since the timer was set. -/
theorem read_eq_countdown {frequency : Int} {now : Float} {t : DelayTimer} {n : Nat}
    (h : ticksBetween frequency t.setTime now = .ok n) :
    t.read frequency now = .ok ((t.countdown.after n).left : Int) := by
  rw [read_of_ticks h, Countdown.left_after]
  congr 1
  show max (0 : Int) ((t.value.toNat : Int) - n) = ((t.value.toNat - n : Nat) : Int)
  omega

end DelayTimer

end Chip8
