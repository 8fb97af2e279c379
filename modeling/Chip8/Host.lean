import Chip8.Log

/-!
# The host of a machine

A machine reads three things from its host: which keys are down, what the clock shows and random
numbers. One instruction looks at the clock at most once and takes at most one random number, so
the host's side of one step is an `Input`, and for a longer run it is a `Host`, which numbers the
clock readings by steps and the random numbers by draws. What the machine does to its host is a
sequence of `Event`s.
-/

namespace Chip8

/-- What the host offers to one step. -/
structure Input where
  /-- Whether a key is down. -/
  pressed : Int → Bool
  /-- The clock reading. -/
  now : Float
  /-- The next random number. -/
  random : Int

/-- What the host offers to a run. The keys are held down all the time. -/
structure Host where
  /-- Whether a key is down. -/
  pressed : Int → Bool
  /-- The clock reading during a step, counted from the start of the run. -/
  now : Nat → Float
  /-- The random numbers in the order in which they are drawn. -/
  random : Nat → Int

namespace Host

/-- The host's side of a step after so many steps and so many draws. -/
def input (h : Host) (steps draws : Nat) : Input :=
  ⟨h.pressed, h.now steps, h.random draws⟩

/-- The host as a run sees it that starts after so many steps and so many draws. -/
def after (h : Host) (steps draws : Nat) : Host :=
  ⟨h.pressed, fun k => h.now (steps + k), fun k => h.random (draws + k)⟩

end Host

/-- What a machine does to its host. -/
inductive Event where
  /-- A key was looked at. -/
  | polled (key : Int)
  /-- A beep was requested. -/
  | beeped
  /-- A random number between two bounds was asked for. -/
  | drew (low high : Int)
  /-- Something was reported. -/
  | logged (m : Message)
  deriving DecidableEq, Repr

namespace Event

/-- Whether an event asks for a random number. -/
def isDraw : Event → Bool
  | .drew .. => true
  | _ => false

/-- How many random numbers a sequence of events asks for. -/
def draws (events : Array Event) : Nat := events.countP isDraw

end Event

end Chip8
