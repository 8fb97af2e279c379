import Chip8.Font
import Chip8.Machine.Effect

/-!
# Loading a program

Loading puts the font and then a program image into memory, each at the place the configuration
gives. An image that is too large changes nothing.
-/

namespace Chip8

namespace Config

variable (cfg : Config)

/-- The number of bytes there are for a program. -/
def programLimit : Int := cfg.memorySize - cfg.programStart

/-- Memory with the font and a program image in it. -/
def withProgram (image memory : Array Byte) : Array Byte :=
  Cells.overwrite (Cells.overwrite memory cfg.fontStart Font.image) cfg.programStart image

end Config

namespace Effect

variable (cfg : Config)

/-- Load a program image. -/
def load (image : Array Byte) : Effect Unit := do
  if cfg.programLimit < image.size then
    throw (.programTooLarge image.size cfg.programLimit)
  change fun m => { m with memory := cfg.withProgram image m.memory }
  emit (.logged (.loaded image.size cfg.programStart))

/-- Load a program image that was read from the file `name`. -/
def loadFile (name : String) (image : Array Byte) : Effect Unit := do
  emit (.logged (.readFile name image.size))
  load cfg image

end Effect

namespace Machine

variable (cfg : Config)

/-- Load a program image into a machine. -/
def load (image : Array Byte) (m : Machine) : Outcome Unit := (Effect.load cfg image).outcome m

/-- Load a program image that was read from the file `name` into a machine. -/
def loadFile (name : String) (image : Array Byte) (m : Machine) : Outcome Unit :=
  (Effect.loadFile cfg name image).outcome m

end Machine

end Chip8
