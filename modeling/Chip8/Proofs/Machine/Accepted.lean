import Chip8.Proofs.Instruction.Spelling
import Chip8.Proofs.Machine.Trap

/-!
# Executing and listing accept the same instructions

A step traps on a byte pair exactly where the text of the pair and the number of pending calls
say so: on data, on a call with a full stack and on a return with an empty one. This holds for
any configuration and any machine, whatever else the machine holds.
-/

namespace Chip8.Machine

/-- On a machine that is not halted, a step traps on a pair that is written as data, on one that
    is written as a call with a full stack, on one that is written as a return with an empty
    stack, with the trap of that name, and otherwise not at all. -/
theorem step_traps_iff_text {cfg : Config} {m : Machine} {pair : Fetched} (input : Input)
    (hh : m.halted = false) (hp : m.fetched? cfg = some pair)
    (hdepth : (m.depth : Int) ≤ cfg.stackSize) :
    let text := assemblerText pair.opcode pair.argument
    let data := text = ".word " ++ Numeral.hex 2 pair.opcode.toNat
      ++ Numeral.hex 2 pair.argument.toNat
    let full := (∃ a : Address, text = "jsr " ++ Numeral.hex 3 a.val) ∧ m.depth = cfg.stackSize
    let empty := text = "rts" ∧ m.depth = 0
    ((m.step cfg input).Traps .illegal ↔ data) ∧
      ((m.step cfg input).Traps .stackOverflow ↔ full) ∧
      ((m.step cfg input).Traps .stackUnderflow ↔ empty) ∧
      (¬ data → ¬ full → ¬ empty → ∀ t, (m.step cfg input).result ≠ .error (.trap t)) := by
  -- the traps are those of the instruction, which the text names
  have hfull : cfg.stackSize ≤ (m.depth : Int) ↔ (m.depth : Int) = cfg.stackSize := by omega
  have hillegal : (m.step cfg input).Traps .illegal ↔
      Instruction.decode pair.opcode pair.argument = none := by
    rw [step_traps_iff, trap?_eq_some_iff cfg hh hp]
    simp
  have hoverflow : (m.step cfg input).Traps .stackOverflow ↔
      (∃ target, Instruction.decode pair.opcode pair.argument = some (.call target)) ∧
        (m.depth : Int) = cfg.stackSize := by
    rw [step_traps_iff, trap?_eq_some_iff cfg hh hp, hfull]
    simp
  have hunderflow : (m.step cfg input).Traps .stackUnderflow ↔
      Instruction.decode pair.opcode pair.argument = some .ret ∧ m.depth = 0 := by
    rw [step_traps_iff, trap?_eq_some_iff cfg hh hp]
    simp
  dsimp only
  rw [assemblerText_eq_word_iff, assemblerText_eq_jsr_iff, assemblerText_eq_rts_iff]
  refine ⟨hillegal, hoverflow, hunderflow, fun hd hf he t ht => ?_⟩
  have htraps : (m.step cfg input).Traps t.kind := ⟨t, ht, rfl⟩
  cases hk : t.kind with
  | illegal => exact hd (hillegal.1 (hk ▸ htraps))
  | stackOverflow => exact hf (hoverflow.1 (hk ▸ htraps))
  | stackUnderflow => exact he (hunderflow.1 (hk ▸ htraps))

/-- With sixteen pending calls, one more call is too many, and its text says that it is one. -/
theorem step_traps_sixteen_calls :
    (fetched? {} { initial {} 0.0 with memory := Array.replicate 4096 0x2A, depth := 16 }
        = some ⟨0x200, 0x2A, 0x2A⟩) ∧
      assemblerText 0x2A 0x2A = "jsr " ++ Numeral.hex 3 (0xA2A : Address).val ∧
      (step {} ⟨fun _ => false, 0.0, 0⟩
        { initial {} 0.0 with memory := Array.replicate 4096 0x2A, depth := 16 }).Traps
          .stackOverflow := by
  have hp : fetched? {} { initial {} 0.0 with memory := Array.replicate 4096 0x2A, depth := 16 }
      = some ⟨0x200, 0x2A, 0x2A⟩ := by decide +kernel
  have htext : assemblerText 0x2A 0x2A = "jsr " ++ Numeral.hex 3 (0xA2A : Address).val := by
    decide
  refine ⟨hp, htext, ?_⟩
  obtain ⟨_, hfull, _, _⟩ :=
    step_traps_iff_text ⟨fun _ => false, 0.0, 0⟩ rfl hp (by decide)
  exact hfull.2 ⟨⟨0xA2A, htext⟩, rfl⟩

end Chip8.Machine
