import Chip8.Proofs.Instruction.Assembly
import Chip8.Proofs.Machine.Pairs
import Chip8.Proofs.Machine.Reachable
import Chip8.Proofs.Machine.Veil

/-!
# A text says what is done

Pairs that are written in the same way are the same or are the same shift (`assemblerText_eq_iff`),
and the bytes of a shift have no part in what it does. So whoever knows the text of a pair knows
what carrying it out does to any machine (`Machine.carryOut_eq_of_text`). Only the report of a
traced step shows the bytes themselves.
-/

namespace Chip8

variable (cfg : Config) (input : Input)

namespace Effect

/-- Pairs that are written in the same way are the same effect. -/
theorem executePair_eq_of_text {opcode argument opcode' argument' : Byte}
    (h : assemblerText opcode argument = assemblerText opcode' argument') (address : Int) :
    executePair cfg input ⟨address, opcode, argument⟩
      = executePair cfg input ⟨address, opcode', argument'⟩ := by
  rcases assemblerText_eq_iff.1 h with ⟨rfl, rfl⟩ | ⟨dir, x, hd, hd'⟩
  · rfl
  · -- the bytes of a pair matter to traps and calls only
    rw [executePair, executePair, hd, hd']
    rfl

end Effect

namespace Machine

/-- **The text of a pair determines what it does.** Two pairs that are written in the same way do
    the same to every machine, with the same answer or the same fault, the same events and the same
    machine left. So a step does what it would do with the other pair, behind its report. -/
theorem carryOut_eq_of_text {opcode argument opcode' argument' : Byte}
    (h : assemblerText opcode argument = assemblerText opcode' argument') (address : Int) :
    (∀ m : Machine, m.carryOut cfg input ⟨address, opcode, argument⟩
        = m.carryOut cfg input ⟨address, opcode', argument'⟩) ∧
      ∀ m : Machine, m.halted = false → m.fetched? cfg = some ⟨address, opcode, argument⟩ →
        m.step cfg input =
          ⟨(m.answer cfg input ⟨address, opcode', argument'⟩).result,
            (m.answer cfg input ⟨address, opcode', argument'⟩).machine,
            Effect.traced cfg ⟨address, opcode, argument⟩ ++
              (m.answer cfg input ⟨address, opcode', argument'⟩).events⟩ := by
  have heffect := Effect.executePair_eq_of_text cfg input h address
  refine ⟨fun m => ?_, fun m hh hp => ?_⟩
  · rw [carryOut, carryOut, heffect]
  · rw [step_answer cfg input hh hp, answer, answer, heffect]

/-- `8306` and `83A6` are both `shr v3`, here on a machine that is about to do the first. -/
theorem carryOut_eq_of_text_shift :
    let m := ((initial {} 0.0).load {} #[0x83, 0x06]).machine
    let input : Input := ⟨fun _ => false, 0.0, 0⟩
    assemblerText 0x83 0x06 = assemblerText 0x83 0xA6 ∧
      m.carryOut {} input ⟨0x200, 0x83, 0x06⟩ = m.carryOut {} input ⟨0x200, 0x83, 0xA6⟩ ∧
      (m.step {} input).machine = (m.answer {} input ⟨0x200, 0x83, 0xA6⟩).machine := by
  intro m input
  have htext : assemblerText 0x83 0x06 = assemblerText 0x83 0xA6 := by decide
  have hfits : (#[0x83, 0x06] : Array Byte).size ≤ 3584 := by decide
  have hp : m.fetched? {} = some ⟨0x200, 0x83, 0x06⟩ :=
    (Valid.initial 0.0).fetched_load hfits (k := 0) (by decide) rfl
  obtain ⟨hcarried, hstep⟩ := carryOut_eq_of_text {} input htext 0x200
  refine ⟨htext, hcarried m, ?_⟩
  rw [hstep m rfl hp]

end Machine

end Chip8
