import Chip8.Proofs.Machine.Trap

/-!
# Carrying out a byte pair

A step fetches a byte pair, moves the program counter behind it and carries the pair out.
`Machine.carryOut` is the last part on its own: what an instruction, given by its two bytes, makes
of any machine, wherever its program counter is.
-/

namespace Chip8

namespace Instruction

/-- The digits of `8XYN` are found again in its two bytes. -/
theorem decode_arithmetic (x y n : Nibble) :
    decode (.ofNibbles 0x8 x) (.ofNibbles y n) = decodeArithmetic x y n := by
  rw [decode, Byte.high_ofNibbles, Byte.low_ofNibbles, Byte.high_ofNibbles, Byte.low_ofNibbles]
  rfl

/-- So are the digits of `DXYN`. -/
theorem decode_draw (x y n : Nibble) :
    decode (.ofNibbles 0xD x) (.ofNibbles y n) = some (.draw x y n) := by
  rw [decode, Byte.high_ofNibbles, Byte.low_ofNibbles, Byte.high_ofNibbles, Byte.low_ofNibbles]
  rfl

/-- In the last family the second byte is looked up as a whole. -/
theorem decode_misc (x : Nibble) (argument : Byte) :
    decode (.ofNibbles 0xF x) argument = decodeMisc x argument := by
  rw [decode, Byte.high_ofNibbles, Byte.low_ofNibbles]
  rfl

end Instruction

namespace Effect

variable {α : Type}

/-- What comes of an effect that ends well. -/
theorem outcome_of_ok {eff : Effect α} {m : Machine} {a : α} {p : Progress}
    (h : eff.run ⟨m, #[]⟩ = .ok a p) : eff.outcome m = ⟨.ok a, p.machine, p.events⟩ := by
  rw [outcome, h]

theorem outcome_of_error {eff : Effect α} {m : Machine} {f : Fault} {p : Progress}
    (h : eff.run ⟨m, #[]⟩ = .error f p) : eff.outcome m = ⟨.error f, p.machine, p.events⟩ := by
  rw [outcome, h]

end Effect

namespace Machine

/-- All registers that instructions name are there. -/
theorem exists_register {registers : Array Int} (h : registers.size = 16) (x : Nibble) :
    ∃ v, registers[x.val]? = some v :=
  ⟨_, Array.getElem?_eq_getElem (h.symm ▸ x.isLt)⟩

variable (cfg : Config) (input : Input)

/-- What comes of carrying out a byte pair on a machine. -/
def carryOut (pair : Fetched) (m : Machine) : Outcome Bool :=
  (Effect.executePair cfg input pair).outcome m

variable {pair : Fetched} {i : Instruction} {m : Machine}

/-- A pair is carried out as the instruction that it stands for. -/
theorem carryOut_of_decode (h : Instruction.decode pair.opcode pair.argument = some i) :
    m.carryOut cfg input pair = (Effect.execute cfg input pair i).outcome m := by
  rw [carryOut, Effect.executePair, h]

variable {eff : Effect Unit} {p : Progress}

/-- Most instructions are an effect after which they are done. -/
theorem carryOut_of_finish (h : Instruction.decode pair.opcode pair.argument = some i)
    (hi : Effect.execute cfg input pair i = Effect.finish eff)
    (hrun : eff.run ⟨m, #[]⟩ = .ok () p) :
    m.carryOut cfg input pair = ⟨.ok true, p.machine, p.events⟩ := by
  rw [carryOut_of_decode cfg input h, hi]
  refine Effect.outcome_of_ok ?_
  rw [Effect.finish_run, hrun]

/-- A fault of such an effect is the fault of the instruction. -/
theorem carryOut_of_fault {f : Fault} (h : Instruction.decode pair.opcode pair.argument = some i)
    (hi : Effect.execute cfg input pair i = Effect.finish eff)
    (hrun : eff.run ⟨m, #[]⟩ = .error f p) :
    m.carryOut cfg input pair = ⟨.error f, p.machine, p.events⟩ := by
  rw [carryOut_of_decode cfg input h, hi]
  refine Effect.outcome_of_error ?_
  rw [Effect.finish_run, hrun]

end Machine

end Chip8
