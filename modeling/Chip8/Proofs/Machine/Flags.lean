import Chip8.Proofs.Machine.Drawing
import Chip8.Proofs.Machine.Pairs
import Chip8.Proofs.Machine.Valid

/-!
# Arithmetic with a flag

Five instructions set the flag register beside their result. They read both operands first, then
write the flag and then the result (`Machine.carryOut_flagged`), so it does not matter which of the
registers X, Y and F are the same, but that the flag is lost where X is the flag register. Otherwise
the byte and the flag together are exactly what the operation computes (`Machine.flags_exact`).

  * `Flagged`       : the five operations,
  * `Flagged.byte`, `Flagged.flag` : what they leave in the two registers,
  * `Flagged.exact` : what they compute, as integers have no bound,
  * `Flagged.worth` : what a byte and a flag amount to.
-/

namespace Chip8

/-- The operations `8XYN` that set the flag. -/
inductive Flagged where
  | add
  | sub
  | shiftRight
  | subFrom
  | shiftLeft
  deriving DecidableEq, Repr

namespace Flagged

/-- The operation of `8XYN`, by its last nibble, for those that set the flag. -/
def ofNibble? : Nibble → Option Flagged
  | 0x4 => some .add
  | 0x5 => some .sub
  | 0x6 => some .shiftRight
  | 0x7 => some .subFrom
  | 0xE => some .shiftLeft
  | _ => none

/-- The instruction for an operation. -/
def instruction (x y : Nibble) : Flagged → Instruction
  | .add => .combine .add x y
  | .sub => .combine .sub x y
  | .shiftRight => .shift .right x
  | .subFrom => .combine .subFrom x y
  | .shiftLeft => .shift .left x

/-- The last digit of `8XYN` chooses the operation. -/
theorem decodeArithmetic_eq {x y n : Nibble} {op : Flagged} (h : ofNibble? n = some op) :
    Instruction.decodeArithmetic x y n = some (op.instruction x y) := by
  unfold ofNibble? at h
  split at h
  case h_6 => cases h
  all_goals
    cases h
    rfl

/-- The byte that the operation gives. -/
def byte (a b : Int) : Flagged → Int
  | .add => (a + b) % 256
  | .sub => (a - b) % 256
  | .shiftRight => a / 2
  | .subFrom => (b - a) % 256
  | .shiftLeft => 2 * a % 256

/-- The carry, the borrow or the bit that is shifted out. -/
def flag (a b : Int) : Flagged → Int
  | .add => Chip8.flag (255 < a + b)
  | .sub => Chip8.flag (a - b < 0)
  | .shiftRight => a % 2
  | .subFrom => Chip8.flag (b - a < 0)
  | .shiftLeft => a / 128 % 2

/-- What the operation computes. A shift to the right only cuts its operand in two. -/
def exact (a b : Int) : Flagged → Int
  | .add => a + b
  | .sub => a - b
  | .shiftRight => a
  | .subFrom => b - a
  | .shiftLeft => 2 * a

/-- What a byte and a flag amount to: a carry stands for 256, a borrow for 256 less and the bit that
    is shifted out to the right for one unit. -/
def worth (value flag : Int) : Flagged → Int
  | .add => value + 256 * flag
  | .sub => value - 256 * flag
  | .shiftRight => 2 * value + flag
  | .subFrom => value - 256 * flag
  | .shiftLeft => value + 256 * flag

variable {a b : Int}

/-- The flag is a bit. -/
theorem flag_bit (op : Flagged) : op.flag a b = 0 ∨ op.flag a b = 1 := by
  have hflag : ∀ c : Bool, Chip8.flag c = 0 ∨ Chip8.flag c = 1 := by decide
  cases op with
  | add => exact hflag _
  | sub => exact hflag _
  | subFrom => exact hflag _
  | shiftRight =>
      show a % 2 = 0 ∨ a % 2 = 1
      omega
  | shiftLeft =>
      show a / 128 % 2 = 0 ∨ a / 128 % 2 = 1
      omega

/-- What is left of a result is a byte. -/
theorem byte_fits (op : Flagged) (ha : Byte.Fits a) : Byte.Fits (op.byte a b) := by
  cases op with
  | shiftRight => exact Shift.result_fits .right ha
  | _ => exact Byte.fits_emod _

/-- A borrow is one exactly if the difference is negative. -/
theorem sub_eq_borrow (ha : Byte.Fits a) (hb : Byte.Fits b) :
    (a - b) % 256 - 256 * Chip8.flag (a - b < 0) = a - b := by
  by_cases hlt : a - b < 0
  · rw [decide_eq_true hlt]
    show (a - b) % 256 - 256 * 1 = a - b
    omega
  · rw [decide_eq_false hlt]
    show (a - b) % 256 - 256 * 0 = a - b
    omega

/-- Nothing is lost in the byte and the flag together. -/
theorem worth_byte_flag (op : Flagged) (ha : Byte.Fits a) (hb : Byte.Fits b) :
    op.worth (op.byte a b) (op.flag a b) = op.exact a b := by
  cases op with
  | add => exact add_result (by omega) (by omega)
  | sub => exact sub_eq_borrow ha hb
  | subFrom => exact sub_eq_borrow hb ha
  | shiftRight =>
      show 2 * (a / 2) + a % 2 = a
      omega
  | shiftLeft =>
      show 2 * a % 256 + 256 * (a / 128 % 2) = 2 * a
      omega

/-- Subtracting what was added gives the first summand back, ... -/
theorem byte_sub_add (ha : Byte.Fits a) (b : Int) : byte (byte a b .add) b .sub = a := by
  show ((a + b) % 256 - b) % 256 = a
  omega

/-- ... and it borrows exactly if the sum had a carry. -/
theorem flag_sub_add (ha : Byte.Fits a) (hb : Byte.Fits b) :
    flag (byte a b .add) b .sub = flag a b .add := by
  refine congrArg Chip8.flag (decide_eq_decide.2 ?_)
  show (a + b) % 256 - b < 0 ↔ 255 < a + b
  omega

end Flagged

/-! ## The registers -/

/-- Registers after a flag and then a value were written. -/
def writeFlagged (registers : Array Int) (x : Nibble) (flag value : Int) : Array Int :=
  (registers.setIfInBounds flagRegister flag).setIfInBounds x value

section Registers

variable {registers : Array Int} {x : Nibble} (flag value : Int)

theorem size_writeFlagged (registers : Array Int) (x : Nibble) :
    (writeFlagged registers x flag value).size = registers.size := by
  rw [writeFlagged, Array.size_setIfInBounds, Array.size_setIfInBounds]

/-- The result is written last, so register X holds it even if it is the flag register. -/
theorem writeFlagged_value (hsize : registers.size = 16) :
    (writeFlagged registers x flag value)[x.val]? = some value := by
  refine Array.getElem?_setIfInBounds_self_of_lt ?_
  rw [Array.size_setIfInBounds, hsize]
  exact x.isLt

/-- The flag is there if the value was not written over it. -/
theorem writeFlagged_flag (hsize : registers.size = 16) (hx : x ≠ flagRegister) :
    (writeFlagged registers x flag value)[flagRegister.val]? = some flag := by
  rw [writeFlagged, Array.getElem?_setIfInBounds_ne fun heq => hx (Fin.ext heq)]
  exact Array.getElem?_setIfInBounds_self_of_lt (hsize.symm ▸ flagRegister.isLt)

/-- All other registers keep what they hold. -/
theorem writeFlagged_others {k : Nat} (hx : k ≠ x.val) (hflag : k ≠ flagRegister.val) :
    (writeFlagged registers x flag value)[k]? = registers[k]? := by
  rw [writeFlagged, Array.getElem?_setIfInBounds_ne hx.symm,
    Array.getElem?_setIfInBounds_ne hflag.symm]

end Registers

/-! ## The instructions -/

namespace Effect

variable {p : Progress} {x y : Nibble} {a b : Int}

/-- The flag is written first and the result after it. -/
theorem setFlagged_run (hregisters : p.machine.registers.size = 16) (flag value : Int) :
    (setRegister flagRegister flag >>= fun _ => setRegister x value).run p = .ok ()
      ⟨{ p.machine with registers := writeFlagged p.machine.registers x flag value },
        p.events⟩ := by
  have hflag : flagRegister.val < p.machine.registers.size := hregisters.symm ▸ flagRegister.isLt
  have hx : x.val < (p.machine.registers.setIfInBounds flagRegister flag).size := by
    rw [Array.size_setIfInBounds, hregisters]
    exact x.isLt
  rw [run_bind_of_ok (setRegister_run flag hflag)]
  exact setRegister_run (p := ⟨{ p.machine with
    registers := p.machine.registers.setIfInBounds flagRegister flag }, p.events⟩) value hx

/-- An operation with a flag writes the flag and then its result. -/
theorem combine_run (op : Operator) {f : Int} (hregisters : p.machine.registers.size = 16)
    (ha : p.machine.registers[x.val]? = some a) (hb : p.machine.registers[y.val]? = some b)
    (hf : op.flag? a b = some f) :
    (combine op x y).run p = .ok () ⟨{ p.machine with
      registers := writeFlagged p.machine.registers x f (op.result a b) }, p.events⟩ := by
  rw [combine, run_bind_of_ok (register_run ha), run_bind_of_ok (register_run hb), hf]
  exact setFlagged_run hregisters f (op.result a b)

/-- A shift writes the bit that it pushes out and then its result. -/
theorem shift_run (dir : Shift) (hregisters : p.machine.registers.size = 16)
    (ha : p.machine.registers[x.val]? = some a) :
    (shift dir x).run p = .ok () ⟨{ p.machine with
      registers := writeFlagged p.machine.registers x (dir.lost a) (dir.result a) },
      p.events⟩ := by
  rw [shift, run_bind_of_ok (register_run ha)]
  exact setFlagged_run hregisters (dir.lost a) (dir.result a)

end Effect

namespace Machine

variable (cfg : Config) {m : Machine} {x y : Nibble} {a b : Int}

/-- An operation writes its flag and then its byte, whichever registers are the same. -/
theorem carryOut_flagged (hregisters : m.registers.size = 16) (ha : m.registers[x.val]? = some a)
    (hb : m.registers[y.val]? = some b) {n : Nibble} {op : Flagged}
    (hn : Flagged.ofNibble? n = some op) (input : Input) (address : Int) :
    m.carryOut cfg input ⟨address, .ofNibbles 0x8 x, .ofNibbles y n⟩ = ⟨.ok true, { m with
      registers := writeFlagged m.registers x (op.flag a b) (op.byte a b) }, #[]⟩ := by
  have hdecode := (Instruction.decode_arithmetic x y n).trans (Flagged.decodeArithmetic_eq hn)
  cases op with
  | add =>
      exact carryOut_of_finish cfg input hdecode rfl
        (Effect.combine_run (p := ⟨m, #[]⟩) .add hregisters ha hb rfl)
  | sub =>
      exact carryOut_of_finish cfg input hdecode rfl
        (Effect.combine_run (p := ⟨m, #[]⟩) .sub hregisters ha hb rfl)
  | subFrom =>
      exact carryOut_of_finish cfg input hdecode rfl
        (Effect.combine_run (p := ⟨m, #[]⟩) .subFrom hregisters ha hb rfl)
  | shiftRight =>
      exact carryOut_of_finish cfg input hdecode rfl
        (Effect.shift_run (p := ⟨m, #[]⟩) .right hregisters ha)
  | shiftLeft =>
      exact carryOut_of_finish cfg input hdecode rfl
        (Effect.shift_run (p := ⟨m, #[]⟩) .left hregisters ha)

/-- What an operation that sets the flag leaves of registers that hold bytes. -/
structure Flagging (op : Flagged) (before : Array Int) (x : Nibble) (a b : Int)
    (after : Array Int) : Prop where
  size : after.size = before.size
  others : ∀ k : Nat, k ≠ x.val → k ≠ flagRegister.val → after[k]? = before[k]?
  /-- Outside the flag register the result is a byte, and the flag tells what it lacks. -/
  exact : x ≠ flagRegister → ∃ value flag, after[x.val]? = some value ∧
    after[flagRegister.val]? = some flag ∧ Byte.Fits value ∧ (flag = 0 ∨ flag = 1) ∧
    op.worth value flag = op.exact a b
  /-- In the flag register the result takes the place of the flag. -/
  lost : x = flagRegister → after[flagRegister.val]? = some (op.byte a b)

/-- **Arithmetic with a flag is exact**, for all registers X and Y that hold bytes, the same or not.
    An addition is undone by a subtraction if the registers X, Y and F are different, and the flag
    is then the same after both. -/
theorem flags_exact (hregisters : m.registers.size = 16) (hbytes : ∀ v ∈ m.registers, Byte.Fits v)
    (ha : m.registers[x.val]? = some a) (hb : m.registers[y.val]? = some b) (input : Input)
    (address : Int) :
    (∀ (n : Nibble) (op : Flagged), Flagged.ofNibble? n = some op →
      ∃ registers, Flagging op m.registers x a b registers ∧
        m.carryOut cfg input ⟨address, .ofNibbles 0x8 x, .ofNibbles y n⟩
          = ⟨.ok true, { m with registers := registers }, #[]⟩) ∧
    (x ≠ y → x ≠ flagRegister → y ≠ flagRegister → ∀ (input' : Input) (address' : Int),
      ∃ (sum restored : Array Int) (flag : Int),
        m.carryOut cfg input ⟨address, .ofNibbles 0x8 x, .ofNibbles y 0x4⟩
          = ⟨.ok true, { m with registers := sum }, #[]⟩ ∧
        carryOut cfg input' ⟨address', .ofNibbles 0x8 x, .ofNibbles y 0x5⟩
            { m with registers := sum }
          = ⟨.ok true, { m with registers := restored }, #[]⟩ ∧
        sum[flagRegister.val]? = some flag ∧ restored[flagRegister.val]? = some flag ∧
        ∀ k : Nat, k ≠ flagRegister.val → restored[k]? = m.registers[k]?) := by
  have hfits : ∀ {z : Nibble} {v : Int}, m.registers[z.val]? = some v → Byte.Fits v :=
    fun h => hbytes _ (Array.mem_of_getElem? h)
  constructor
  · intro n op hn
    refine ⟨_, ?_, carryOut_flagged cfg hregisters ha hb hn input address⟩
    constructor
    case size => exact size_writeFlagged _ _ _ _
    case others =>
      intro k hx hflag
      exact writeFlagged_others _ _ hx hflag
    case exact =>
      intro hx
      exact ⟨_, _, writeFlagged_value _ _ hregisters, writeFlagged_flag _ _ hregisters hx,
        op.byte_fits (hfits ha), op.flag_bit, op.worth_byte_flag (hfits ha) (hfits hb)⟩
    case lost =>
      rintro rfl
      exact writeFlagged_value _ _ hregisters
  · intro hxy hx hy input' address'
    -- the second operand is still there after the addition, and the first one is the sum
    let sum := writeFlagged m.registers x (Flagged.flag a b .add) (Flagged.byte a b .add)
    have hsize : sum.size = 16 := (size_writeFlagged _ _ _ _).trans hregisters
    have hsumx : sum[x.val]? = some (Flagged.byte a b .add) := writeFlagged_value _ _ hregisters
    have hsumy : sum[y.val]? = some b :=
      (writeFlagged_others _ _ (fun heq => hxy (Fin.ext heq.symm))
        fun heq => hy (Fin.ext heq)).trans hb
    have hadd := carryOut_flagged cfg hregisters ha hb (n := 0x4) rfl input address
    have hsub := carryOut_flagged cfg (m := { m with registers := sum }) hsize hsumx hsumy
      (n := 0x5) rfl input' address'
    rw [Flagged.byte_sub_add (hfits ha) b, Flagged.flag_sub_add (hfits ha) (hfits hb)] at hsub
    refine ⟨_, _, _, hadd, hsub, writeFlagged_flag _ _ hregisters hx,
      writeFlagged_flag _ _ hsize hx, ?_⟩
    intro k hk
    by_cases hkx : k = x.val
    · subst hkx
      exact (writeFlagged_value _ _ hsize).trans ha.symm
    · exact (writeFlagged_others _ _ hkx hk).trans (writeFlagged_others _ _ hkx hk)

/-- `8014` and `8015` on 200 and 100, and `8FF5`, where the flag register is both operands. -/
theorem flags_exact_carry :
    let input : Input := ⟨fun _ => false, 0.0, 0⟩
    let m : Machine := { initial {} 0.0 with
      registers := #[200, 100, 0, 0, 0, 0, 0, 0, 0, 0, 0, 0, 0, 0, 0, 7] }
    (∃ sum restored : Array Int,
      m.carryOut {} input ⟨0x200, 0x80, 0x14⟩ = ⟨.ok true, { m with registers := sum }, #[]⟩ ∧
      carryOut {} input ⟨0x202, 0x80, 0x15⟩ { m with registers := sum }
        = ⟨.ok true, { m with registers := restored }, #[]⟩ ∧
      sum[0]? = some 44 ∧ sum[15]? = some 1 ∧ restored[0]? = some 200 ∧
      restored[15]? = some 1) ∧
    ∃ registers : Array Int,
      m.carryOut {} input ⟨0x200, 0x8F, 0xF5⟩
        = ⟨.ok true, { m with registers := registers }, #[]⟩ ∧
      registers[15]? = some 0 := by
  intro input m
  obtain ⟨hops, hundo⟩ := flags_exact {} (m := m) (x := 0) (y := 1) rfl (by decide) rfl rfl
    input 0x200
  obtain ⟨sum, hsum, hadd⟩ := hops 0x4 .add rfl
  obtain ⟨value, flag, hvalue, hflag, hfits, hbit, hworth⟩ := hsum.exact (by decide)
  obtain ⟨rfl, rfl⟩ : value = 44 ∧ flag = 1 := by
    replace hworth : value + 256 * flag = 200 + 100 := hworth
    omega
  obtain ⟨sum', restored, flag', hadd', hsub, hflag', hrestored, hothers⟩ :=
    hundo (by decide) (by decide) (by decide) input 0x202
  obtain rfl : sum' = sum :=
    congrArg (fun out => out.machine.registers) (hadd'.symm.trans hadd)
  obtain rfl : flag' = 1 := Option.some.inj (hflag'.symm.trans hflag)
  obtain ⟨registers, hlost, hdifference⟩ := (flags_exact {} (m := m) (x := 15) (y := 15) rfl
    (by decide) rfl rfl input 0x200).1 0x5 .sub rfl
  exact ⟨⟨sum', restored, hadd', hsub, hvalue, hflag, hothers 0 (by decide), hrestored⟩,
    registers, hdifference, hlost.lost rfl⟩

end Machine

end Chip8
