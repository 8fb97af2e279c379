import Chip8.Font
import Chip8.Instruction.Arithmetic
import Chip8.Machine.Effect

/-!
# Executing an instruction

`Effect.execute` says what each instruction does to the machine and its host. The program counter
already points behind the instruction. The answer is whether the instruction is done: only the
wait for a key may have to be tried again.
-/

namespace Chip8

/-- A byte pair as it was fetched, with the program counter of that moment. -/
structure Fetched where
  address : Int
  opcode : Byte
  argument : Byte
  deriving DecidableEq, Repr

/-- The trap that a byte pair causes. -/
def Fetched.trap (pair : Fetched) (kind : TrapKind) : Trap :=
  ⟨kind, Address.wrap pair.address, pair.opcode.toNat, pair.argument.toNat⟩

namespace Effect

variable {α : Type} (cfg : Config) (input : Input) (pair : Fetched)

/-- Halt the machine, report the trap and stop. -/
def trap (kind : TrapKind) : Effect α := do
  change fun m => { m with halted := true }
  emit (.logged (.trapped (pair.trap kind)))
  throw (.trap (pair.trap kind))

/-- Push the program counter and continue at an address. -/
def call (target : Int) : Effect Unit := do
  let m ← machine
  if cfg.stackSize ≤ m.depth then
    trap pair .stackOverflow
  if m.depth < m.stack.size then
    change fun m => { m with
      stack := m.stack.setIfInBounds m.depth m.counter
      depth := m.depth + 1
      counter := target }
  else
    throw .outOfRange

/-- Continue at the last return address. -/
def ret : Effect Unit := do
  let m ← machine
  match m.depth with
  | 0 => trap pair .stackUnderflow
  | depth + 1 =>
    change fun m => { m with depth := depth }
    match m.stack[depth]? with
    | some a => change fun m => { m with counter := a }
    | none => throw .outOfRange

/-- Scroll the screen down. -/
def scroll (n : Int) : Effect Unit := do
  let screen ← ofExcept ((← machine).screen.scroll cfg.display n)
  change fun m => { m with screen := screen }

/-- The value a register is compared with. -/
def comparand : Comparand → Effect Int
  | .byte nn => return nn.toNat
  | .register y => register y

/-- Combine registers X and Y into X. The flag is written first, so that the flag register as X
keeps the result. -/
def combine (op : Operator) (x y : Nibble) : Effect Unit := do
  let a ← register x
  let b ← register y
  match op.flag? a b with
  | some f => setRegister flagRegister f
  | none => pure ()
  setRegister x (op.result a b)

/-- Shift a register by one bit. The flag is written first. -/
def shift (dir : Shift) (x : Nibble) : Effect Unit := do
  let a ← register x
  setRegister flagRegister (dir.lost a)
  setRegister x (dir.result a)

/-- Put a random byte, masked, into a register. -/
def random (x : Nibble) (mask : Byte) : Effect Unit := do
  emit (.drew 0 Byte.limit)
  setRegister x (Byte.wrap input.random &&& mask).toNat

/-- Draw a sprite of `n` rows at the pixel that registers X and Y name. The flag tells whether a
lit pixel went dark. -/
def draw (x y n : Nibble) : Effect Unit := do
  let column ← register x
  let line ← register y
  let m ← machine
  let hit ← paint (Paint.sprite cfg.display m.memory m.index column line n)
  setRegister flagRegister (flag hit)

/-- Look at one key. -/
def pollKey (key : Int) : Effect Bool := do
  emit (.polled key)
  return input.pressed key

/-- Look at `n` keys from number `key` on, until one is down. -/
def firstPressed (key : Nat) : Nat → Effect (Option Nat)
  | 0 => return none
  | n + 1 => do
    if ← pollKey input key then
      return some key
    firstPressed (key + 1) n

/-- Put the first key that is down into a register. If there is none, go back to this instruction
and wait. -/
def awaitKey (x : Nibble) : Effect Bool := do
  match ← firstPressed input 0 cfg.keyCount.toNat with
  | some key =>
    setRegister x key
    change fun m => { m with waiting := false }
    return true
  | none =>
    change fun m => { m with waiting := true }
    jump ((← machine).counter - 2)
    return false

/-- Store the hundreds, tens and units of a register. -/
def storeDigits (x : Nibble) : Effect Unit := do
  let v ← register x
  let i := (← machine).index
  store cfg i (v / 100)
  store cfg (i + 1) (v / 10 % 10)
  store cfg (i + 2) (v % 10)

/-- Store a register where the index register points to, and move the index register along. -/
def storeRegister (k : Nat) : Effect Unit := do
  let v ← register k
  let i := (← machine).index
  store cfg i v
  setIndex (i + 1)

/-- Store registers 0 to X. -/
def storeRegisters (x : Nibble) : Effect Unit := (List.range (x + 1)).forM (storeRegister cfg)

/-- Load a register from where the index register points to, and move the index register along. -/
def loadRegister (k : Nat) : Effect Unit := do
  let i := (← machine).index
  let b ← fetch cfg i
  setRegister k b.toNat
  setIndex (i + 1)

/-- Load registers 0 to X. -/
def loadRegisters (x : Nibble) : Effect Unit := (List.range (x + 1)).forM (loadRegister cfg)

/-- An effect after which the instruction is done. -/
def finish (eff : Effect Unit) : Effect Bool := do
  eff
  return true

/-- Carry out an instruction, and tell whether it is done. -/
def execute : Instruction → Effect Bool
  | .clear => finish <| change fun m => { m with screen := m.screen.clear cfg.display }
  | .ret => finish <| ret pair
  | .resolution high => finish <| change fun m => { m with screen := m.screen.setExtended high }
  | .scroll n => finish <| scroll cfg n
  | .jump target => finish <| jump target
  | .call target => finish <| call cfg pair target
  | .skip equal x other => finish <| do
    let a ← register x
    let b ← comparand other
    skipIf ((a == b) == equal)
  | .load x nn => finish <| setRegister x nn.toNat
  | .add x nn => finish <| do
    let a ← register x
    setRegister x ((a + nn.toNat) % 256)
  | .combine op x y => finish <| combine op x y
  | .shift dir x => finish <| shift dir x
  | .index target => finish <| setIndex target
  | .jumpOffset base => finish <| do
    let a ← register 0
    jump (base + a)
  | .random x mask => finish <| random input x mask
  | .draw x y n => finish <| draw cfg x y n
  | .skipKey down x => finish <| do
    let a ← register x
    let pressed ← pollKey input (a % 16)
    skipIf (pressed == down)
  | .readTimer x => finish <| do
    let v ← ofExcept ((← machine).delay cfg input.now)
    setRegister x v
  | .awaitKey x => awaitKey cfg input x
  | .setTimer x => finish <| do
    let v ← register x
    change fun m => { m with timer := DelayTimer.start v input.now }
  | .beep _ => finish <| emit .beeped
  | .advanceIndex x => finish <| do
    let v ← register x
    setIndex ((← machine).index + v)
  | .glyph x => finish <| do
    let v ← register x
    setIndex (cfg.fontStart + v * Font.glyphHeight)
  | .storeDigits x => finish <| storeDigits cfg x
  | .storeRegisters x => finish <| storeRegisters cfg x
  | .loadRegisters x => finish <| loadRegisters cfg x

end Effect

end Chip8
