import Chip8.Proofs.Machine.Drawing
import Chip8.Proofs.Machine.Pairs
import Chip8.Proofs.Machine.Retired
import Mathlib.Data.Fintype.Basic
import Mathlib.Tactic.FinCases

/-!
# The next program counter

A step moves the program counter behind the pair that it fetches, and some instructions move it once
more. `Machine.successor?` reads off the two bytes where the program goes on: jumps and calls name
the address, a return finds it on the stack, a skip leaves out one pair, and everything else goes on
with the next one. All of this wraps at the end of the address space, also where the pair itself
lies across it (`Machine.step_successor`).

  * `Machine.skips?`     : whether a pair that may skip does so,
  * `Machine.successor?` : where the program goes on behind a pair,
  * `Fetched.Opposite`   : pairs that skip in opposite cases.

The proof goes by instructions: `Instruction.target?` says the same of what a pair decodes to.
-/

namespace Chip8

/-- Pairs of bytes that skip in opposite cases. -/
inductive Fetched.Opposite : Fetched → Fetched → Prop where
  | byte (address : Int) (x : Nibble) (nn : Byte) :
      Opposite ⟨address, .ofNibbles 0x3 x, nn⟩ ⟨address, .ofNibbles 0x4 x, nn⟩
  | register (address : Int) (x y : Nibble) :
      Opposite ⟨address, .ofNibbles 0x5 x, .ofNibbles y 0⟩
        ⟨address, .ofNibbles 0x9 x, .ofNibbles y 0⟩
  | key (address : Int) (x : Nibble) :
      Opposite ⟨address, .ofNibbles 0xE x, 0x9E⟩ ⟨address, .ofNibbles 0xE x, 0xA1⟩

namespace Machine

/-- Whether a pair skips, for the families of pairs that may do so. -/
def skips? (m : Machine) (input : Input) (pair : Fetched) : Option Bool :=
  let x := m.registers[pair.opcode.low.val]?
  let y := m.registers[pair.argument.high.val]?
  let nn : Int := pair.argument.toNat
  match pair.opcode.high with
  | 0x3 => x.map fun v => v == nn
  | 0x4 => x.map fun v => v != nn
  | 0x5 => x.bind fun v => y.map fun w => v == w
  | 0x9 => x.bind fun v => y.map fun w => v != w
  | 0xE => x.map fun v =>
      if pair.argument = 0x9E then input.pressed (v % 16) else !input.pressed (v % 16)
  | _ => none

/-- Where the program goes on behind a pair at the program counter, unless the pair skips. -/
def leads? (m : Machine) (pair : Fetched) : Option Int :=
  let nnn : Int := 256 * pair.opcode.low.val + pair.argument.toNat
  match pair.opcode.high with
  | 0x0 => if pair.argument = 0xEE then m.stack[m.depth - 1]? else some ((m.counter + 2) % 4096)
  | 0x1 => some nnn
  | 0x2 => some nnn
  | 0xB => m.registers[0]?.map fun v => (nnn + v) % 4096
  | _ => some ((m.counter + 2) % 4096)

/-- Where the program goes on behind a pair at the program counter. -/
def successor? (m : Machine) (input : Input) (pair : Fetched) : Option Int :=
  match m.skips? input pair with
  | some true => some ((m.counter + 4) % 4096)
  | some false => some ((m.counter + 2) % 4096)
  | none => m.leads? pair

end Machine

/-! ## By instructions -/

/-- The value that a register is compared with. -/
def Comparand.value? (registers : Array Int) : Comparand → Option Int
  | .byte nn => some nn.toNat
  | .register y => registers[y.val]?

namespace Instruction

/-- Whether a skip is taken. -/
def taken? (registers : Array Int) (input : Input) : Instruction → Option Bool
  | .skip equal x other =>
      registers[x.val]?.bind fun v => (other.value? registers).map fun w => (v == w) == equal
  | .skipKey down x => registers[x.val]?.map fun v => input.pressed (v % 16) == down
  | _ => none

/-- Where an instruction leaves the program counter of a machine that has moved on, unless it
    skips. -/
def leads? (m : Machine) : Instruction → Option Int
  | .jump target => some target.val
  | .call target => some target.val
  | .ret => m.stack[m.depth - 1]?
  | .jumpOffset base => m.registers[0]?.map fun v => Address.wrap (base.val + v)
  | _ => some m.counter

/-- Where an instruction leaves the program counter of a machine that has moved on. -/
def target? (m : Machine) (input : Input) (i : Instruction) : Option Int :=
  match i.taken? m.registers input with
  | some true => some (Address.wrap (m.counter + 2))
  | some false => some m.counter
  | none => i.leads? m

end Instruction

namespace Effect

variable (cfg : Config) (input : Input) (pair : Fetched)

/-- An effect that goes on with the content of a register has found the register. -/
theorem register_bind_of_ok {α : Type} {x : Nat} {next : Int → Effect α} {p p' : Progress} {a : α}
    (h : (register x >>= next).run p = .ok a p') :
    ∃ v, p.machine.registers[x]? = some v ∧ (next v).run p = .ok a p' := by
  cases hv : p.machine.registers[x]? with
  | none =>
      simp only [register, EStateM.run_bind, run_machine, hv] at h
      cases h
  | some v =>
      rw [run_bind_of_ok (register_run hv)] at h
      exact ⟨v, rfl, h⟩

/-- An instruction that is done has ended its effect well. -/
theorem of_finish_ok {eff : Effect Unit} {p p' : Progress}
    (h : (finish eff).run p = .ok true p') : eff.run p = .ok () p' := by
  rw [finish_run] at h
  cases hr : eff.run p with
  | ok u p'' =>
      rw [hr] at h
      cases h
      rfl
  | error f p'' =>
      rw [hr] at h
      cases h

/-- A condition decides whether the program counter moves on. -/
theorem skipIf_run (taken : Bool) (p : Progress) :
    (skipIf taken).run p = .ok () ⟨{ p.machine with
      counter := if taken then Address.wrap (p.machine.counter + 2) else p.machine.counter },
      p.events⟩ := by
  cases taken <;> rfl

/-- What a register is compared with is read, and nothing else happens. -/
theorem comparand_run {p : Progress} {other : Comparand} {w : Int}
    (h : other.value? p.machine.registers = some w) : (comparand other).run p = .ok w p := by
  cases other with
  | byte nn =>
      cases h
      rfl
  | register y => exact register_run h

/-- A comparison that goes on has found what to compare with. -/
theorem comparand_bind_of_ok {α : Type} {other : Comparand} {next : Int → Effect α}
    {p p' : Progress} {a : α} (h : (comparand other >>= next).run p = .ok a p') :
    ∃ w, other.value? p.machine.registers = some w ∧ (next w).run p = .ok a p' := by
  cases other with
  | byte nn => exact ⟨nn.toNat, rfl, h⟩
  | register y => exact register_bind_of_ok h

/-- A skip of which it is known whether it is taken. -/
theorem execute_of_taken {i : Instruction} {p : Progress} {taken : Bool}
    (h : i.taken? p.machine.registers input = some taken) :
    ∃ events, (execute cfg input pair i).run p = .ok true ⟨{ p.machine with
      counter := if taken then Address.wrap (p.machine.counter + 2) else p.machine.counter },
      events⟩ := by
  cases i with
  | skip equal x other =>
      obtain ⟨v, hv, hrest⟩ := Option.bind_eq_some_iff.1 h
      obtain ⟨w, hw, rfl⟩ := Option.map_eq_some_iff.1 hrest
      refine ⟨p.events, ?_⟩
      show (finish (register x >>= fun a => comparand other >>= fun b =>
        skipIf ((a == b) == equal))).run p = _
      rw [finish_run, run_bind_of_ok (register_run hv), run_bind_of_ok (comparand_run hw),
        skipIf_run]
  | skipKey down x =>
      obtain ⟨v, hv, rfl⟩ := Option.map_eq_some_iff.1 h
      refine ⟨p.events.push (.polled (v % 16)), ?_⟩
      show (finish (register x >>= fun a => pollKey input (a % 16) >>= fun pressed =>
        skipIf (pressed == down))).run p = _
      rw [finish_run, run_bind_of_ok (register_run hv), run_bind_of_ok (pollKey_run input _ p),
        skipIf_run]
  | _ => cases h

/-- Of a skip that is executed to the end it is known whether it is taken. -/
theorem exists_taken {i : Instruction} {p p' : Progress}
    (hi : (∃ equal x other, i = .skip equal x other) ∨ ∃ down x, i = .skipKey down x)
    (h : (execute cfg input pair i).run p = .ok true p') :
    ∃ taken, i.taken? p.machine.registers input = some taken := by
  rcases hi with ⟨equal, x, other, rfl⟩ | ⟨down, x, rfl⟩
  · obtain ⟨v, hv, hrest⟩ := register_bind_of_ok (of_finish_ok h)
    obtain ⟨w, hw, -⟩ := comparand_bind_of_ok hrest
    refine ⟨(v == w) == equal, ?_⟩
    rw [Instruction.taken?, hv, Option.bind_some, hw, Option.map_some]
  · obtain ⟨v, hv, -⟩ := register_bind_of_ok (of_finish_ok h)
    refine ⟨input.pressed (v % 16) == down, ?_⟩
    rw [Instruction.taken?, hv, Option.map_some]

/-- Where an instruction that is executed to the end leaves the program counter. -/
theorem execute_target {i : Instruction} {p p' : Progress}
    (h : (execute cfg input pair i).run p = .ok true p') :
    i.target? p.machine input = some p'.machine.counter := by
  have hskip : (∃ taken, i.taken? p.machine.registers input = some taken) →
      i.target? p.machine input = some p'.machine.counter := by
    rintro ⟨taken, ht⟩
    obtain ⟨events, hrun⟩ := execute_of_taken cfg input pair ht
    cases hrun.symm.trans h
    rw [Instruction.target?, ht]
    cases taken <;> rfl
  -- the program counter stays where it is not in the footprint
  by_cases hcounter : .counter ∈ i.footprint
  · cases i with
    | jump target =>
        cases of_finish_ok h
        refine congrArg some (Int.emod_eq_of_lt (Int.natCast_nonneg _) ?_).symm
        exact_mod_cast target.isLt
    | call target =>
        rw [call_of_done cfg input pair h]
        rfl
    | ret =>
        obtain ⟨depth, a, hdepth, hcell, hmachine⟩ := ret_of_done cfg input pair h
        rw [hmachine]
        show p.machine.stack[p.machine.depth - 1]? = some a
        rw [hdepth]
        exact hcell
    | jumpOffset base =>
        obtain ⟨v, hv, hjump⟩ := register_bind_of_ok (of_finish_ok h)
        cases hjump
        show (p.machine.registers[0]?.map fun v => Address.wrap (base.val + v)) = _
        rw [hv]
        rfl
    | skip equal x other =>
        exact hskip (exists_taken cfg input pair (Or.inl ⟨equal, x, other, rfl⟩) h)
    | skipKey down x =>
        exact hskip (exists_taken cfg input pair (Or.inr ⟨down, x, rfl⟩) h)
    | awaitKey x =>
        obtain ⟨key, -, rfl⟩ := awaitKey_of_done cfg input h
        rfl
    | _ => simp [Instruction.footprint] at hcounter
  · have hconfined := execute_confined cfg input pair i p.machine p (Machine.SameBut.refl _ _)
    rw [h] at hconfined
    have hsame : p'.machine.counter = p.machine.counter := hconfined.2 .counter hcounter
    rw [hsame]
    cases i with
    | jump _ | call _ | ret | jumpOffset _ | skip _ _ _ | skipKey _ _ =>
        simp [Instruction.footprint] at hcounter
    | _ => rfl

end Effect

/-! ## By bytes -/

namespace Instruction

variable {i : Instruction} (m : Machine)

/-- Of the family `00NN` only the return leads away. -/
theorem leads?_of_decodeSystem {argument : Byte} (h : decodeSystem argument = some i) :
    (∀ registers input, i.taken? registers input = none) ∧
      i.leads? m = if argument = 0xEE then m.stack[m.depth - 1]? else some m.counter := by
  rw [decodeSystem] at h
  split_ifs at h with hclear hret hlow hhigh hscroll
  · cases h
    rw [hclear]
    exact ⟨fun _ _ => rfl, rfl⟩
  · cases h
    rw [hret]
    exact ⟨fun _ _ => rfl, rfl⟩
  · cases h
    rw [hlow]
    exact ⟨fun _ _ => rfl, rfl⟩
  · cases h
    rw [hhigh]
    exact ⟨fun _ _ => rfl, rfl⟩
  · cases h
    rw [if_neg hret]
    exact ⟨fun _ _ => rfl, rfl⟩

/-- The families `8XYN` and `FXNN` go on with the next pair. -/
theorem leads?_of_decodeArithmetic {x y n : Nibble} (h : decodeArithmetic x y n = some i) :
    (∀ registers input, i.taken? registers input = none) ∧ i.leads? m = some m.counter := by
  rw [decodeArithmetic] at h
  split at h
  · cases h
    exact ⟨fun _ _ => rfl, rfl⟩
  · cases h
    exact ⟨fun _ _ => rfl, rfl⟩
  · cases h

/-- No instruction of the last family jumps or skips. -/
theorem leads?_of_decodeMisc {x : Nibble} {argument : Byte} (h : decodeMisc x argument = some i) :
    (∀ registers input, i.taken? registers input = none) ∧ i.leads? m = some m.counter := by
  rw [decodeMisc] at h
  split_ifs at h <;>
    · cases h
      exact ⟨fun _ _ => rfl, rfl⟩

/-- The condition of a skip with both values at hand. -/
theorem taken?_byte (registers : Array Int) (input : Input) (equal : Bool) (x : Nibble)
    (nn : Byte) :
    (skip equal x (.byte nn)).taken? registers input
      = registers[x.val]?.map fun v => (v == (nn.toNat : Int)) == equal := by
  cases hv : registers[x.val]? <;> simp [taken?, Comparand.value?, hv]

end Instruction

namespace Machine

variable {m : Machine} {pair : Fetched} {i : Instruction} (input : Input)

/-- The bytes of a pair say the same as the instruction that they stand for. -/
theorem reading_of_decode (h : Instruction.decode pair.opcode pair.argument = some i) :
    m.skips? input pair = i.taken? m.registers input ∧ m.leads? pair = i.leads? m.advance := by
  rw [Instruction.decode] at h
  rw [skips?, leads?]
  generalize pair.opcode.high = family at h ⊢
  -- the families of a single instruction that does not skip come out as they are
  fin_cases family <;> try (cases h; exact ⟨rfl, rfl⟩)
  case «0» =>
    replace h : (if pair.opcode = 0 then Instruction.decodeSystem pair.argument else none)
      = some i := h
    split_ifs at h
    obtain ⟨htaken, hleads⟩ := Instruction.leads?_of_decodeSystem m.advance h
    exact ⟨(htaken m.registers input).symm, hleads.symm⟩
  case «3» =>
    cases h
    exact ⟨by simp [Instruction.taken?_byte], rfl⟩
  case «4» =>
    cases h
    exact ⟨by simp [Instruction.taken?_byte, bne], rfl⟩
  case «5» =>
    replace h : (if pair.argument.low = 0 then some _ else none) = some i := h
    split_ifs at h
    cases h
    exact ⟨by simp [Instruction.taken?, Comparand.value?], rfl⟩
  case «8» =>
    obtain ⟨htaken, hleads⟩ := Instruction.leads?_of_decodeArithmetic m.advance h
    exact ⟨(htaken m.registers input).symm, hleads.symm⟩
  case «9» =>
    replace h : (if pair.argument.low = 0 then some _ else none) = some i := h
    split_ifs at h
    cases h
    exact ⟨by simp [Instruction.taken?, Comparand.value?, bne], rfl⟩
  case «14» =>
    replace h : Instruction.decodeKeys pair.opcode.low pair.argument = some i := h
    rw [Instruction.decodeKeys] at h
    split_ifs at h with hdown hup
    · cases h
      exact ⟨by simp [Instruction.taken?, hdown], rfl⟩
    · cases h
      exact ⟨by simp [Instruction.taken?, hdown], rfl⟩
  case «15» =>
    obtain ⟨htaken, hleads⟩ := Instruction.leads?_of_decodeMisc m.advance h
    exact ⟨(htaken m.registers input).symm, hleads.symm⟩

/-- The step over a pair and the skip of another one wrap as one. -/
theorem wrap_skip (a : Int) : Address.wrap (Address.wrap (a + 2) + 2) = (a + 4) % 4096 := by
  simp only [Address.wrap]
  omega

/-- What the bytes say is what the instruction says that they stand for. -/
theorem successor?_of_decode (h : Instruction.decode pair.opcode pair.argument = some i) :
    m.successor? input pair = i.target? m.advance input := by
  have hregisters : m.advance.registers = m.registers := rfl
  obtain ⟨hskips, hleads⟩ := reading_of_decode (m := m) input h
  rw [successor?, hskips, hleads, Instruction.target?, hregisters]
  rcases i.taken? m.registers input with - | taken
  · rfl
  · cases taken with
    | true => exact congrArg some (wrap_skip m.counter).symm
    | false => rfl

end Machine

/-! ## Opposite skips -/

/-- Opposite pairs are skips, and one is taken exactly if the other is not. -/
theorem Fetched.Opposite.taken {pair pair' : Fetched} (h : pair.Opposite pair')
    {registers : Array Int} (hregisters : registers.size = 16) (input : Input) :
    ∃ i i' taken, Instruction.decode pair.opcode pair.argument = some i ∧
      Instruction.decode pair'.opcode pair'.argument = some i' ∧
      i.taken? registers input = some taken ∧ i'.taken? registers input = some !taken := by
  cases h with
  | byte address x nn =>
      obtain ⟨v, hv⟩ := Machine.exists_register hregisters x
      refine ⟨.skip true x (.byte nn), .skip false x (.byte nn), v == (nn.toNat : Int), ?_, ?_, ?_,
        ?_⟩
      · rw [Instruction.decode, Byte.high_ofNibbles, Byte.low_ofNibbles]
        rfl
      · rw [Instruction.decode, Byte.high_ofNibbles, Byte.low_ofNibbles]
        rfl
      · simp [Instruction.taken?_byte, hv]
      · simp [Instruction.taken?_byte, hv]
  | register address x y =>
      obtain ⟨v, hv⟩ := Machine.exists_register hregisters x
      obtain ⟨w, hw⟩ := Machine.exists_register hregisters y
      refine ⟨.skip true x (.register y), .skip false x (.register y), v == w, ?_, ?_, ?_, ?_⟩
      · rw [Instruction.decode, Byte.high_ofNibbles, Byte.low_ofNibbles, Byte.high_ofNibbles,
          Byte.low_ofNibbles]
        rfl
      · rw [Instruction.decode, Byte.high_ofNibbles, Byte.low_ofNibbles, Byte.high_ofNibbles,
          Byte.low_ofNibbles]
        rfl
      · simp [Instruction.taken?, Comparand.value?, hv, hw]
      · simp [Instruction.taken?, Comparand.value?, hv, hw]
  | key address x =>
      obtain ⟨v, hv⟩ := Machine.exists_register hregisters x
      refine ⟨.skipKey true x, .skipKey false x, input.pressed (v % 16), ?_, ?_, ?_, ?_⟩
      · rw [Instruction.decode, Byte.high_ofNibbles, Byte.low_ofNibbles]
        rfl
      · rw [Instruction.decode, Byte.high_ofNibbles, Byte.low_ofNibbles]
        rfl
      · simp [Instruction.taken?, hv]
      · simp [Instruction.taken?, hv]

namespace Machine

/-- A step that skips, or does not. -/
theorem step_of_taken {cfg : Config} {m : Machine} {pair : Fetched} {i : Instruction} {taken : Bool}
    {input : Input} (hh : m.halted = false) (hp : m.fetched? cfg = some pair)
    (hd : Instruction.decode pair.opcode pair.argument = some i)
    (ht : i.taken? m.registers input = some taken) :
    (m.step cfg input).result = .ok true ∧ (m.step cfg input).machine.counter
      = if taken then (m.counter + 4) % 4096 else (m.counter + 2) % 4096 := by
  obtain ⟨events, hrun⟩ := Effect.execute_of_taken cfg input pair
    (p := ⟨m.advance, Effect.traced cfg pair⟩) ht
  rw [step_of_fetched cfg input hh hp, Effect.executePair, hd]
  dsimp only
  rw [hrun]
  refine ⟨rfl, ?_⟩
  cases taken with
  | true => exact wrap_skip m.counter
  | false => rfl

/-- **The next program counter.** A step that executes an instruction to the end leaves the program
    counter where the two bytes of the instruction say, for any configuration, machine and host. Of
    opposite skips on the same registers and keys exactly one is taken. -/
theorem step_successor :
    (∀ (cfg : Config) (input : Input) (m : Machine), (m.step cfg input).result = .ok true →
      ∃ pair, m.fetched? cfg = some pair ∧
        m.successor? input pair = some (m.step cfg input).machine.counter) ∧
    ∀ (cfg : Config) (input : Input) (m m' : Machine) (pair pair' : Fetched),
      pair.Opposite pair' → m.halted = false → m'.halted = false →
      m.fetched? cfg = some pair → m'.fetched? cfg = some pair' →
      m.registers.size = 16 → m'.registers = m.registers → m'.counter = m.counter →
      (m.step cfg input).result = .ok true ∧ (m'.step cfg input).result = .ok true ∧
      (((m.step cfg input).machine.counter = (m.counter + 4) % 4096 ∧
          (m'.step cfg input).machine.counter = (m.counter + 2) % 4096) ∨
        ((m.step cfg input).machine.counter = (m.counter + 2) % 4096 ∧
          (m'.step cfg input).machine.counter = (m.counter + 4) % 4096)) := by
  constructor
  · intro cfg input m hdone
    -- the instruction was run with some pair, which matters for traps only
    obtain ⟨pair, i, p, -, hnext, hrun, hstep⟩ := run_of_done hdone
    obtain ⟨pair', -, hp, hd⟩ := fetched_of_next cfg hnext
    refine ⟨pair', hp, ?_⟩
    rw [successor?_of_decode input hd, hstep]
    exact Effect.execute_target cfg input pair hrun
  · intro cfg input m m' pair pair' hopposite hh hh' hp hp' hregisters hsame hcounter
    obtain ⟨i, i', taken, hd, hd', ht, ht'⟩ := hopposite.taken hregisters input
    obtain ⟨hdone, hgo⟩ := step_of_taken hh hp hd ht
    obtain ⟨hdone', hgo'⟩ := step_of_taken hh' hp' hd' (hsame.symm ▸ ht')
    rw [hcounter] at hgo'
    refine ⟨hdone, hdone', ?_⟩
    cases taken with
    | true => exact Or.inl ⟨hgo, hgo'⟩
    | false => exact Or.inr ⟨hgo, hgo'⟩

/-- The skips `3007` and `4007` lie across the end of memory, and register 0 is 7. -/
theorem step_successor_across_end :
    let input : Input := ⟨fun _ => false, 0.0, 0⟩
    let m : Machine := { initial {} 0.0 with
      memory := (Array.replicate 4096 7).setIfInBounds 4095 0x30
      registers := (Array.replicate 16 0).setIfInBounds 0 7
      counter := 4095 }
    let m' : Machine := { m with memory := (Array.replicate 4096 7).setIfInBounds 4095 0x40 }
    (m.step {} input).machine.counter = 3 ∧ (m'.step {} input).machine.counter = 1 := by
  intro input m m'
  have hp : m.fetched? {} = some ⟨4095, .ofNibbles 0x3 0, 7⟩ := by decide +kernel
  have hp' : m'.fetched? {} = some ⟨4095, .ofNibbles 0x4 0, 7⟩ := by decide +kernel
  obtain ⟨hdone, hdone', hcounters⟩ := step_successor.2 {} input m m' _ _ (.byte 4095 0 7) rfl rfl
    hp hp' rfl rfl rfl
  obtain ⟨pair, hpair, hnext⟩ := step_successor.1 {} input m hdone
  cases hp.symm.trans hpair
  have hthree : (m.step {} input).machine.counter = 3 := (Option.some.inj hnext).symm
  refine ⟨hthree, ?_⟩
  rw [hthree] at hcounters
  rcases hcounters with ⟨-, hone⟩ | ⟨hfalse, -⟩
  · exact hone
  · cases hfalse

end Machine

end Chip8
