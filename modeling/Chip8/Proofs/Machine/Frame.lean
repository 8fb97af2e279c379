import Chip8.Machine.Execute
import Chip8.Proofs.Screen.Painting

/-!
# What an instruction leaves alone

A machine has twelve `Part`s, and an instruction changes few of them. `Instruction.footprint`
lists the parts that an instruction may change, and `Effect.execute_confined` says that it
changes no other, whether it succeeds or fails, for any configuration, any machine and any host.
The same pass over the instruction set shows which instructions may trap: `Instruction.links`
picks out the call and the return.
-/

namespace Chip8

/-- The parts of a machine. -/
inductive Part where
  | memory
  | registers
  | index
  | counter
  | stack
  | depth
  | timer
  | cells
  | resolution
  | waiting
  | halted
  | cycles
  deriving DecidableEq, Repr

/-- Whether a part of two machines is the same. -/
def Part.Same (m m' : Machine) : Part → Prop
  | .memory => m'.memory = m.memory
  | .registers => m'.registers = m.registers
  | .index => m'.index = m.index
  | .counter => m'.counter = m.counter
  | .stack => m'.stack = m.stack
  | .depth => m'.depth = m.depth
  | .timer => m'.timer = m.timer
  | .cells => m'.screen.cells = m.screen.cells
  | .resolution => m'.screen.extended = m.screen.extended
  | .waiting => m'.waiting = m.waiting
  | .halted => m'.halted = m.halted
  | .cycles => m'.cycles = m.cycles

theorem Part.Same.trans {part : Part} {m₁ m₂ m₃ : Machine} (h₁ : part.Same m₁ m₂)
    (h₂ : part.Same m₂ m₃) : part.Same m₁ m₃ := by
  cases part <;> exact Eq.trans h₂ h₁

namespace Machine

/-- Two machines that differ in some parts at most. -/
def SameBut (parts : List Part) (m m' : Machine) : Prop :=
  ∀ part, part ∉ parts → part.Same m m'

theorem SameBut.refl (parts : List Part) (m : Machine) : SameBut parts m m := by
  intro part _
  cases part <;> rfl

theorem SameBut.trans {parts : List Part} {m₁ m₂ m₃ : Machine} (h₁ : SameBut parts m₁ m₂)
    (h₂ : SameBut parts m₂ m₃) : SameBut parts m₁ m₃ := by
  intro part hp
  exact (h₁ part hp).trans (h₂ part hp)

end Machine

namespace Effect

variable {α β : Type}

/-- An effect that changes no other than the given parts of the machine, whatever comes of it,
    and stops with a trap only where `mayTrap` allows it. -/
def Confined (parts : List Part) (mayTrap : Bool) (eff : Effect α) : Prop :=
  ∀ m : Machine, Upholds (m.SameBut parts) (fun f => f.IsTrap → mayTrap = true)
    (fun _ => True) eff

section Primitive

variable {parts : List Part} {mayTrap : Bool}

theorem Confined.pure (a : α) : Confined parts mayTrap (pure a : Effect α) :=
  fun _ => Chip8.Upholds.pure trivial

theorem Confined.bind {eff : Effect α} {next : α → Effect β} (h : Confined parts mayTrap eff)
    (hnext : ∀ a, Confined parts mayTrap (next a)) : Confined parts mayTrap (eff >>= next) :=
  fun m => Chip8.Upholds.bind (h m) fun a _ => hnext a m

theorem Confined.forM {l : List β} {body : β → Effect Unit}
    (h : ∀ b, Confined parts mayTrap (body b)) : Confined parts mayTrap (l.forM body) :=
  fun m => Chip8.Upholds.forM fun b _ => h b m

/-- A fault that is no trap may come of any effect. -/
theorem Confined.throw {f : Fault} (h : ¬ f.IsTrap) :
    Confined parts mayTrap (throw f : Effect α) :=
  fun _ => Chip8.Upholds.throw fun ht => absurd ht h

theorem Confined.ofExcept {x : Except Fault α} (h : ∀ f, x = .error f → ¬ f.IsTrap) :
    Confined parts mayTrap (ofExcept x : Effect α) :=
  fun _ => Chip8.Upholds.ofExcept_any fun f hf ht => absurd ht (h f hf)

theorem Confined.machine : Confined parts mayTrap Effect.machine :=
  fun _ => Chip8.Upholds.any Upholds.machine

theorem Confined.emit (e : Event) : Confined parts mayTrap (Effect.emit e) :=
  fun _ => Upholds.emit

theorem Confined.change {f : Machine → Machine} (h : ∀ m : Machine, m.SameBut parts (f m)) :
    Confined parts mayTrap (Effect.change f) :=
  fun _ => Upholds.change fun m hm => hm.trans (h m)

theorem register_confined (x : Nat) : Confined parts mayTrap (register x) := by
  refine Confined.bind Confined.machine fun m => ?_
  split
  · exact Confined.pure _
  · exact Confined.throw fun ht => ht

theorem setRegister_confined (x : Nat) (v : Int) (h : .registers ∈ parts) :
    Confined parts mayTrap (setRegister x v) := by
  refine Confined.bind Confined.machine fun m => ?_
  split
  · refine Confined.change fun m part hp => ?_
    cases part <;> first | rfl | contradiction
  · exact Confined.throw fun ht => ht

theorem fetch_confined (cfg : Config) (address : Int) :
    Confined parts mayTrap (fetch cfg address) := by
  refine Confined.bind (Confined.ofExcept fun f hf => Fault.modulo_not_isTrap hf) fun place => ?_
  refine Confined.bind Confined.machine fun m => ?_
  split
  · exact Confined.pure _
  · exact Confined.throw fun ht => ht

theorem store_confined (cfg : Config) (address value : Int) (h : .memory ∈ parts) :
    Confined parts mayTrap (store cfg address value) := by
  refine Confined.bind (Confined.ofExcept fun f hf => Fault.modulo_not_isTrap hf) fun place => ?_
  refine Confined.bind Confined.machine fun m => ?_
  split
  · refine Confined.change fun m part hp => ?_
    cases part <;> first | rfl | contradiction
  · exact Confined.throw fun ht => ht
  · exact Confined.throw fun ht => ht

theorem setIndex_confined (a : Int) (h : .index ∈ parts) :
    Confined parts mayTrap (setIndex a) := by
  refine Confined.change fun m part hp => ?_
  cases part <;> first | rfl | contradiction

theorem jump_confined (a : Int) (h : .counter ∈ parts) :
    Confined parts mayTrap (jump a) := by
  refine Confined.change fun m part hp => ?_
  cases part <;> first | rfl | contradiction

theorem skipIf_confined (condition : Bool) (h : .counter ∈ parts) :
    Confined parts mayTrap (skipIf condition) := by
  rw [skipIf]
  split
  · exact Confined.bind Confined.machine fun m => jump_confined _ h
  · exact Confined.pure _

/-- Painting that keeps the resolution changes cells at most. -/
theorem paint_confined {act : Paint α} (hact : Paint.Steady act) (h : .cells ∈ parts) :
    Confined parts mayTrap (paint act) := by
  intro m p hp
  -- the resolution of the screen before is kept beside the other parts
  have hcells : Upholds (fun m' => m.SameBut parts m' ∧
      m'.screen.extended = p.machine.screen.extended) (fun f => f.IsTrap → mayTrap = true)
      (fun _ => True) (paint act) := by
    refine Upholds.paint (fun m' hm' => hm'.2) ?_
      ((hact p.machine.screen.extended).mono (fun f hf ht => absurd ht hf) fun _ ha => ha)
    intro m' s hm' hs
    refine ⟨hm'.1.trans fun part hp => ?_, hs⟩
    cases part <;> first | rfl | contradiction | exact hs.trans hm'.2.symm
  have hrun := hcells p ⟨hp, rfl⟩
  cases hr : (paint act).run p with
  | ok a p' =>
      rw [hr] at hrun
      exact ⟨hrun.1, hrun.2.1⟩
  | error f p' =>
      rw [hr] at hrun
      exact ⟨hrun.1, hrun.2.1⟩

end Primitive

end Effect

/-- Reading the delay timer fails only by the clock. -/
theorem DelayTimer.read_not_isTrap {frequency : Int} {now : Float} {t : DelayTimer} {f : Fault}
    (h : t.read frequency now = .error f) : ¬ f.IsTrap := by
  intro ht
  cases hn : ticksBetween frequency t.setTime now with
  | ok n =>
      rw [read_of_ticks hn] at h
      cases h
  | error f' =>
      rw [read, hn] at h
      cases h
      rw [ticksBetween] at hn
      dsimp only at hn
      split at hn
      · split at hn
        · cases hn
        · cases hn
          split at ht <;> exact ht
      · cases hn
        exact ht

/-! ## The instruction set -/

namespace Instruction

/-- The parts of the machine that an instruction may change. -/
def footprint : Instruction → List Part
  | .clear => [.cells]
  | .ret => [.depth, .counter, .halted]
  | .resolution _ => [.resolution]
  | .scroll _ => [.cells]
  | .jump _ => [.counter]
  | .call _ => [.stack, .depth, .counter, .halted]
  | .skip .. => [.counter]
  | .load .. => [.registers]
  | .add .. => [.registers]
  | .combine .. => [.registers]
  | .shift .. => [.registers]
  | .index _ => [.index]
  | .jumpOffset _ => [.counter]
  | .random .. => [.registers]
  | .draw .. => [.cells, .registers]
  | .skipKey .. => [.counter]
  | .readTimer _ => [.registers]
  | .awaitKey _ => [.registers, .waiting, .counter]
  | .setTimer _ => [.timer]
  | .beep _ => []
  | .advanceIndex _ => [.index]
  | .glyph _ => [.index]
  | .storeDigits _ => [.memory]
  | .storeRegisters _ => [.memory, .index]
  | .loadRegisters _ => [.registers, .index]

/-- Whether an instruction is a call or a return. -/
def links : Instruction → Bool
  | .call _ => true
  | .ret => true
  | _ => false

end Instruction

namespace Effect

variable {parts : List Part} {mayTrap : Bool} (cfg : Config) (input : Input) (pair : Fetched)

/-- A trap halts the machine and gives no answer. -/
theorem Upholds.trap {α : Type} {inv : Machine → Prop} {err : Fault → Prop} {kind : TrapKind}
    (hinv : ∀ m, inv m → inv { m with halted := true }) (herr : err (.trap (pair.trap kind))) :
    Upholds inv err (fun _ => False) (trap pair kind : Effect α) := by
  refine Chip8.Upholds.bind (Upholds.change hinv) fun _ _ => ?_
  exact Chip8.Upholds.bind Upholds.emit fun _ _ => Chip8.Upholds.throw herr

/-- A trap halts the machine and changes nothing else. -/
theorem trap_confined {α : Type} (kind : TrapKind) (h : .halted ∈ parts) (m : Machine) :
    Upholds (m.SameBut parts) (fun f => f.IsTrap → true = true) (fun _ => False)
      (trap pair kind : Effect α) := by
  refine Upholds.trap pair (fun m' hm' => hm'.trans fun part hp => ?_) fun _ => rfl
  cases part <;> first | rfl | contradiction

/-- A call changes the stack, its depth and the program counter, or it halts the machine. -/
theorem call_confined (target : Int) (hs : .stack ∈ parts) (hd : .depth ∈ parts)
    (hc : .counter ∈ parts) (hh : .halted ∈ parts) :
    Confined parts true (call cfg pair target) := by
  refine Confined.bind Confined.machine fun m => ?_
  dsimp only
  split
  · exact fun m' => Chip8.Upholds.bind (trap_confined pair _ hh m') fun _ h => h.elim
  · split
    · refine Confined.change fun m' part hp => ?_
      cases part <;> first | rfl | contradiction
    · exact Confined.throw fun ht => ht

/-- A return changes the depth of the stack and the program counter, or it halts the machine. -/
theorem ret_confined (hd : .depth ∈ parts) (hc : .counter ∈ parts) (hh : .halted ∈ parts) :
    Confined parts true (ret pair) := by
  refine Confined.bind Confined.machine fun m => ?_
  split
  · exact fun m' => (trap_confined pair _ hh m').any
  · refine Confined.bind (Confined.change fun m' part hp => ?_) fun _ => ?_
    · cases part <;> first | rfl | contradiction
    · split
      · refine Confined.change fun m' part hp => ?_
        cases part <;> first | rfl | contradiction
      · exact Confined.throw fun ht => ht

theorem scroll_confined (n : Int) (h : .cells ∈ parts) :
    Confined parts mayTrap (scroll cfg n) := by
  intro m p hp
  have hs := Screen.scroll_steady p.machine.screen (d := cfg.display) n
  simp only [scroll, machine, EStateM.run_bind, EStateM.run_get, EStateM.run_pure]
  cases hr : p.machine.screen.scroll cfg.display n with
  | error f => exact ⟨fun ht => absurd ht (hs.2 f hr), hp⟩
  | ok s =>
      refine ⟨trivial, hp.trans fun part hp => ?_⟩
      cases part <;> first | rfl | contradiction | exact hs.1 s hr

theorem comparand_confined (other : Comparand) : Confined parts mayTrap (comparand other) := by
  cases other with
  | byte nn => exact Confined.pure _
  | register y => exact register_confined _

theorem combine_confined (op : Operator) (x y : Nibble) (h : .registers ∈ parts) :
    Confined parts mayTrap (combine op x y) := by
  refine Confined.bind (register_confined _) fun a => ?_
  refine Confined.bind (register_confined _) fun b => ?_
  dsimp only
  split
  · exact Confined.bind (setRegister_confined _ _ h) fun _ => setRegister_confined _ _ h
  · exact setRegister_confined _ _ h

theorem shift_confined (dir : Shift) (x : Nibble) (h : .registers ∈ parts) :
    Confined parts mayTrap (shift dir x) := by
  refine Confined.bind (register_confined _) fun a => ?_
  exact Confined.bind (setRegister_confined _ _ h) fun _ => setRegister_confined _ _ h

theorem random_confined (x : Nibble) (mask : Byte) (h : .registers ∈ parts) :
    Confined parts mayTrap (random input x mask) :=
  Confined.bind (Confined.emit _) fun _ => setRegister_confined _ _ h

/-- Drawing changes the cells of the screen and the flag register. -/
theorem draw_confined (x y n : Nibble) (hc : .cells ∈ parts) (hr : .registers ∈ parts) :
    Confined parts mayTrap (draw cfg x y n) := by
  refine Confined.bind (register_confined _) fun column => ?_
  refine Confined.bind (register_confined _) fun line => ?_
  refine Confined.bind Confined.machine fun m => ?_
  refine Confined.bind (paint_confined (Paint.sprite_steady _ _ _ _ _ _) hc) fun hit => ?_
  exact setRegister_confined _ _ hr

theorem pollKey_confined (key : Int) : Confined parts mayTrap (pollKey input key) :=
  Confined.bind (Confined.emit _) fun _ => Confined.pure _

theorem firstPressed_confined (key n : Nat) :
    Confined parts mayTrap (firstPressed input key n) := by
  induction n generalizing key with
  | zero => exact Confined.pure _
  | succ n ih =>
      refine Confined.bind (pollKey_confined input _) fun pressed => ?_
      split
      · exact Confined.pure _
      · exact ih (key + 1)

/-- Waiting for a key changes a register, the flag of a waiting machine and the program counter. -/
theorem awaitKey_confined (x : Nibble) (hr : .registers ∈ parts) (hw : .waiting ∈ parts)
    (hc : .counter ∈ parts) : Confined parts mayTrap (awaitKey cfg input x) := by
  refine Confined.bind (firstPressed_confined input _ _) fun key => ?_
  cases key with
  | some key =>
      refine Confined.bind (setRegister_confined _ _ hr) fun _ => ?_
      refine Confined.bind (Confined.change fun m part hp => ?_) fun _ => Confined.pure _
      cases part <;> first | rfl | contradiction
  | none =>
      refine Confined.bind (Confined.change fun m part hp => ?_) fun _ => ?_
      · cases part <;> first | rfl | contradiction
      · refine Confined.bind Confined.machine fun m => ?_
        exact Confined.bind (jump_confined _ hc) fun _ => Confined.pure _

theorem storeDigits_confined (x : Nibble) (h : .memory ∈ parts) :
    Confined parts mayTrap (storeDigits cfg x) := by
  refine Confined.bind (register_confined _) fun v => Confined.bind Confined.machine fun m => ?_
  refine Confined.bind (store_confined cfg _ _ h) fun _ => ?_
  exact Confined.bind (store_confined cfg _ _ h) fun _ => store_confined cfg _ _ h

theorem storeRegisters_confined (x : Nibble) (hm : .memory ∈ parts) (hi : .index ∈ parts) :
    Confined parts mayTrap (storeRegisters cfg x) := by
  refine Confined.forM fun k => Confined.bind (register_confined _) fun v => ?_
  refine Confined.bind Confined.machine fun m => ?_
  exact Confined.bind (store_confined cfg _ _ hm) fun _ => setIndex_confined _ hi

theorem loadRegisters_confined (x : Nibble) (hr : .registers ∈ parts) (hi : .index ∈ parts) :
    Confined parts mayTrap (loadRegisters cfg x) := by
  refine Confined.forM fun k => Confined.bind Confined.machine fun m => ?_
  refine Confined.bind (fetch_confined cfg _) fun b => ?_
  exact Confined.bind (setRegister_confined _ _ hr) fun _ => setIndex_confined _ hi

theorem finish_confined {eff : Effect Unit} (h : Confined parts mayTrap eff) :
    Confined parts mayTrap (finish eff) :=
  Confined.bind h fun _ => Confined.pure _

/-- An instruction changes no part of the machine but its footprint, whatever comes of it, and
    only a call or a return may trap. -/
theorem execute_confined (i : Instruction) :
    Confined i.footprint i.links (execute cfg input pair i) := by
  -- each case is what its effects are confined to, all of which are in the footprint
  cases i with
  | clear =>
      refine finish_confined (Confined.change fun m part hp => ?_)
      cases part <;> first | rfl | exact absurd List.mem_cons_self hp
  | ret => exact finish_confined (ret_confined pair (by decide) (by decide) (by decide))
  | resolution high =>
      refine finish_confined (Confined.change fun m part hp => ?_)
      cases part <;> first | rfl | exact absurd List.mem_cons_self hp
  | scroll n => exact finish_confined (scroll_confined cfg n List.mem_cons_self)
  | jump target => exact finish_confined (jump_confined _ List.mem_cons_self)
  | call target =>
      exact finish_confined (call_confined cfg pair _ (by simp [Instruction.footprint])
        (by simp [Instruction.footprint]) (by simp [Instruction.footprint])
        (by simp [Instruction.footprint]))
  | skip equal x other =>
      refine finish_confined (Confined.bind (register_confined _) fun a => ?_)
      refine Confined.bind (comparand_confined other) fun b => ?_
      exact skipIf_confined _ List.mem_cons_self
  | load x nn => exact finish_confined (setRegister_confined _ _ List.mem_cons_self)
  | add x nn =>
      refine finish_confined (Confined.bind (register_confined _) fun a => ?_)
      exact setRegister_confined _ _ List.mem_cons_self
  | combine op x y => exact finish_confined (combine_confined op x y List.mem_cons_self)
  | shift dir x => exact finish_confined (shift_confined dir x List.mem_cons_self)
  | index target => exact finish_confined (setIndex_confined _ List.mem_cons_self)
  | jumpOffset base =>
      refine finish_confined (Confined.bind (register_confined _) fun a => ?_)
      exact jump_confined _ List.mem_cons_self
  | random x mask => exact finish_confined (random_confined input x mask List.mem_cons_self)
  | draw x y n =>
      exact finish_confined (draw_confined cfg x y n List.mem_cons_self
        (by simp [Instruction.footprint]))
  | skipKey down x =>
      refine finish_confined (Confined.bind (register_confined _) fun a => ?_)
      refine Confined.bind (pollKey_confined input _) fun pressed => ?_
      exact skipIf_confined _ List.mem_cons_self
  | readTimer x =>
      refine finish_confined (Confined.bind Confined.machine fun m => ?_)
      refine Confined.bind (Confined.ofExcept fun f hf => DelayTimer.read_not_isTrap hf)
        fun v => ?_
      exact setRegister_confined _ _ List.mem_cons_self
  | awaitKey x =>
      exact awaitKey_confined cfg input x (by simp [Instruction.footprint])
        (by simp [Instruction.footprint]) (by simp [Instruction.footprint])
  | setTimer x =>
      refine finish_confined (Confined.bind (register_confined _) fun v => ?_)
      refine Confined.change fun m part hp => ?_
      cases part <;> first | rfl | exact absurd List.mem_cons_self hp
  | beep x => exact finish_confined (Confined.emit _)
  | advanceIndex x =>
      refine finish_confined (Confined.bind (register_confined _) fun v => ?_)
      exact Confined.bind Confined.machine fun m => setIndex_confined _ List.mem_cons_self
  | glyph x =>
      refine finish_confined (Confined.bind (register_confined _) fun v => ?_)
      exact setIndex_confined _ List.mem_cons_self
  | storeDigits x => exact finish_confined (storeDigits_confined cfg x List.mem_cons_self)
  | storeRegisters x =>
      exact finish_confined (storeRegisters_confined cfg x List.mem_cons_self
        (by simp [Instruction.footprint]))
  | loadRegisters x =>
      exact finish_confined (loadRegisters_confined cfg x List.mem_cons_self
        (by simp [Instruction.footprint]))

end Effect

end Chip8
