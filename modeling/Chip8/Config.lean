import Chip8.Fault

/-!
# Configuration

The sizes, places and rates a machine is built with. The defaults describe the usual machine:
4096 bytes of memory with programs at `0x200` and the font at `0`, a screen of 64 × 32 pixels
that can switch to 128 × 64, sixteen registers, sixteen keys and sixteen pending calls.
-/

namespace Chip8

/-- The geometry and colours of the screen. The cells behind it always form the
high-resolution grid. -/
structure Display where
  loresWidth : Int := 64
  loresHeight : Int := 32
  hiresWidth : Int := 128
  hiresHeight : Int := 64
  foreground : Int := 0xFFFFFFFF
  background : Int := 0xFF000000
  deriving DecidableEq, Repr

/-- How many cells wide a pixel is in low resolution. -/
def Display.loresScale (d : Display) : Except Fault Int :=
  Fault.quotient d.hiresWidth d.loresWidth

/-- Everything that is fixed while a machine runs. -/
structure Config where
  memorySize : Int := 4096
  programStart : Int := 0x200
  fontStart : Int := 0x000
  display : Display := {}
  /-- Ticks of the delay timer in a second. -/
  timerFrequency : Int := 60
  /-- How many calls may be pending. -/
  stackSize : Int := 16
  registerCount : Int := 16
  keyCount : Int := 16
  /-- Whether every executed instruction is logged. -/
  trace : Bool := false
  deriving DecidableEq, Repr

/-- The number of the register that receives carries, borrows and collisions. -/
def flagRegister : Fin 16 := ⟨15, by decide⟩

example : Display.loresScale {} = .ok 2 := rfl

end Chip8
