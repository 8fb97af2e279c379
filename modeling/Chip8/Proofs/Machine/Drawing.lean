import Chip8.Proofs.Machine.Halted
import Chip8.Proofs.Machine.Pairs
import Chip8.Proofs.Machine.Waiting
import Chip8.Proofs.Screen.Sprite

/-!
# The instruction that draws

The instruction reads both coordinates before anything is written, draws on the screen and then sets
the flag register, which may be one of the two it has read (`Machine.step_draw`). On the usual
screen a sprite never meets a pixel twice, since it has fifteen rows at most, so the flag tells what
a comparison of the screens before and after shows (`Machine.sprite_exact`).
-/

namespace Chip8

namespace Effect

variable (cfg : Config) (input : Input)

/-- A register that exists is read, and nothing else happens. -/
theorem register_run {p : Progress} {x : Nat} {v : Int} (h : p.machine.registers[x]? = some v) :
    (register x).run p = .ok v p := by
  simp only [register, EStateM.run_bind, run_machine, h]
  rfl

/-- Painting that ends well changes the screen of the machine, and nothing else. -/
theorem paint_run {α : Type} {p : Progress} {act : Paint α} {a : α} {s : Screen}
    (h : act.run p.machine.screen = .ok a s) :
    (paint act).run p = .ok a ⟨{ p.machine with screen := s }, p.events⟩ := by
  simp only [paint, EStateM.run_bind, EStateM.run_get, h]
  rfl

/-- Drawing puts the sprite on the screen and the answer into the flag register. -/
theorem draw_run {p : Progress} {x y n : Nibble} {column line : Int} {hit : Bool} {s : Screen}
    (hx : p.machine.registers[x.val]? = some column)
    (hy : p.machine.registers[y.val]? = some line)
    (hflag : flagRegister.val < p.machine.registers.size)
    (hdraw : (Paint.sprite cfg.display p.machine.memory p.machine.index column line n).run
      p.machine.screen = .ok hit s) :
    (draw cfg x y n).run p = .ok ()
      ⟨{ p.machine with
          screen := s
          registers := p.machine.registers.setIfInBounds flagRegister (flag hit) },
        p.events⟩ := by
  have hset := setRegister_run (p := ⟨{ p.machine with screen := s }, p.events⟩) (flag hit) hflag
  simp only [draw, EStateM.run_bind, register_run hx, register_run hy, run_machine,
    paint_run hdraw, hset]

end Effect

namespace Machine

variable {cfg : Config} {m : Machine} {x y n : Nibble} {column line : Int}

/-- A machine that has fetched something has memory. -/
theorem memory_of_next {i : Instruction} (h : m.next? cfg = some i) : 0 < m.memory.size := by
  obtain ⟨pair, -, hp, -⟩ := fetched_of_next cfg h
  obtain ⟨-, hopcode, -⟩ := cells_of_fetched cfg hp
  obtain ⟨place, -, -⟩ := Option.map_eq_some_iff.1 hopcode
  exact place.pos

/-- A step that draws. -/
theorem step_draw (input : Input) {hit : Bool} {s : Screen}
    (hnext : m.next? cfg = some (.draw x y n))
    (hx : m.registers[x.val]? = some column) (hy : m.registers[y.val]? = some line)
    (hflag : flagRegister.val < m.registers.size)
    (hdraw : (Paint.sprite cfg.display m.memory m.index column line n).run m.screen
      = .ok hit s) :
    ∃ pair, m.fetched? cfg = some pair ∧ m.step cfg input = ⟨.ok true, { m with
        screen := s
        registers := m.registers.setIfInBounds flagRegister (flag hit)
        counter := Address.wrap (m.counter + 2)
        cycles := m.cycles + 1 },
      Effect.traced cfg pair⟩ := by
  obtain ⟨pair, hp, hstep⟩ := step_of_next cfg input hnext
  refine ⟨pair, hp, ?_⟩
  rw [hstep]
  have hrun := Effect.draw_run cfg (p := ⟨m.advance, Effect.traced cfg pair⟩) hx hy hflag hdraw
  show Effect.settle ((Effect.finish (Effect.draw cfg x y n)).run _) = _
  rw [Effect.finish, EStateM.run_bind, hrun]
  rfl

/-- **What a sprite does.** Take any full grid of the usual size in either resolution, and a sprite
    with no more rows than the screen, anywhere in memory and at any place. Drawing it does not
    fail. All cells of a pixel under a set bit change against the first one of them, all other cells
    stay as they were, and the answer tells whether a lit cell has become dark. The instruction that
    draws does this for the coordinates that are in its two registers when it begins, puts the
    answer into the flag register, and does nothing else. -/
theorem sprite_exact :
    (∀ (s : Screen) (sp : Sprite), s.cells.size = 128 * 64 → 0 < sp.memory.size →
      sp.height ≤ s.height {} →
      ∃ (k rows cols : Nat) (hit : Bool) (s' : Screen),
        s.scale {} = .ok k ∧ s.height {} = rows ∧ s.width {} = cols ∧
        (sp.paint {}).run s = .ok hit s' ∧ Screen.Drawn {} k rows cols sp s hit s') ∧
    ∀ (m : Machine) (input : Input) (x y n : Nibble), m.next? {} = some (.draw x y n) →
      m.registers.size = 16 → m.screen.cells.size = 128 * 64 →
      ∃ (k rows cols : Nat) (column line : Int) (hit : Bool) (s' : Screen),
        m.screen.scale {} = .ok k ∧ m.screen.height {} = rows ∧ m.screen.width {} = cols ∧
        m.registers[x.val]? = some column ∧ m.registers[y.val]? = some line ∧
        Screen.Drawn {} k rows cols ⟨m.memory, m.index, column, line, n⟩ m.screen hit s' ∧
        m.step {} input = ⟨.ok true, { m with
            screen := s'
            registers := m.registers.setIfInBounds flagRegister (if hit then 1 else 0)
            counter := Address.wrap (m.counter + 2)
            cycles := m.cycles + 1 },
          #[]⟩ := by
  have hcolours : ({} : Display).foreground ≠ ({} : Display).background := by decide
  constructor
  · intro s sp hsize hmemory hheight
    obtain ⟨k, rows, cols, h, _, hcols⟩ := Screen.exists_tiled 0xFFFFFFFF 0xFF000000 hsize
    obtain ⟨hit, s', hrun, hdrawn⟩ :=
      h.drawn sp hcolours (by omega) hmemory (hheight.trans_eq h.height)
    exact ⟨k, rows, cols, hit, s', h.scale, h.height, h.width, hrun, hdrawn⟩
  · intro m input x y n hnext hregisters hsize
    obtain ⟨k, rows, cols, h, hrows, hcols⟩ := Screen.exists_tiled 0xFFFFFFFF 0xFF000000 hsize
    obtain ⟨column, hx⟩ := exists_register hregisters x
    obtain ⟨line, hy⟩ := exists_register hregisters y
    have hflag : flagRegister.val < m.registers.size := hregisters.symm ▸ flagRegister.isLt
    have hrow : (n.val : Int) ≤ rows := by
      have hn := n.isLt
      omega
    obtain ⟨hit, s', hrun, hdrawn⟩ :=
      h.drawn ⟨m.memory, m.index, column, line, n⟩ hcolours (by omega) (memory_of_next hnext) hrow
    obtain ⟨pair, -, hstep⟩ := step_draw input hnext hx hy hflag hrun
    exact ⟨k, rows, cols, column, line, hit, s', h.scale, h.height, h.width, hx, hy, hdrawn, hstep⟩

/-- A sprite as tall as the screen, and the instruction `DF12`, whose column is in the flag
    register. The second bit of its first row meets a pixel with cells of both colours. -/
theorem sprite_exact_flag_register :
    let s := (Screen.blank {}).fill (· == 1) 0xFFFFFFFF
    let tall : Sprite := ⟨#[0x80, 0x01], -1, -3, 40, 32⟩
    let m : Machine := { initial {} 0.0 with
      memory := (Array.replicate 4096 0xDF).setIfInBounds 0x201 0x12
      registers := (Array.replicate 16 0).setIfInBounds 15 63
      screen := s }
    (s.cells.size = 128 * 64 ∧ 0 < tall.memory.size ∧ tall.height ≤ s.height {} ∧
      ∃ hit s', (tall.paint {}).run s = .ok hit s' ∧ Screen.Drawn {} 2 32 64 tall s hit s') ∧
    m.next? {} = some (.draw 15 1 2) ∧ m.registers.size = 16 ∧
      ∃ hit s', Screen.Drawn {} 2 32 64 ⟨m.memory, 0, 63, 0, 2⟩ s hit s' ∧
        m.step {} ⟨fun _ => false, 0.0, 0⟩ = ⟨.ok true, { m with
            screen := s'
            registers := m.registers.setIfInBounds 15 (if hit then 1 else 0)
            counter := 0x202
            cycles := 1 },
          #[]⟩ := by
  intro s tall m
  have hsize : s.cells.size = 128 * 64 := Screen.size_fill.trans Array.size_replicate
  have hmemory : 0 < tall.memory.size := by decide
  have hheight : tall.height ≤ s.height {} := by decide
  have hnext : m.next? {} = some (.draw 15 1 2) := by decide +kernel
  have hregisters : m.registers.size = 16 := by decide
  have hshape : ∀ {k rows cols : Nat}, s.scale {} = .ok (k : Int) → s.height {} = rows →
      s.width {} = cols → k = 2 ∧ rows = 32 ∧ cols = 64 := fun hk hrows hcols =>
    ⟨(Int.ofNat.inj (Except.ok.inj hk)).symm, (Int.ofNat.inj hrows).symm,
      (Int.ofNat.inj hcols).symm⟩
  constructor
  · obtain ⟨k, rows, cols, hit, s', hk, hrows, hcols, hrun, hdrawn⟩ :=
      sprite_exact.1 s tall hsize hmemory hheight
    obtain ⟨rfl, rfl, rfl⟩ := hshape hk hrows hcols
    exact ⟨hsize, hmemory, hheight, hit, s', hrun, hdrawn⟩
  · obtain ⟨k, rows, cols, column, line, hit, s', hk, hrows, hcols, hx, hy, hdrawn, hstep⟩ :=
      sprite_exact.2 m ⟨fun _ => false, 0.0, 0⟩ 15 1 2 hnext hregisters hsize
    obtain ⟨rfl, rfl, rfl⟩ := hshape hk hrows hcols
    obtain rfl : column = 63 := (Option.some.inj hx).symm
    obtain rfl : line = 0 := (Option.some.inj hy).symm
    exact ⟨hnext, hregisters, hit, s', hdrawn, hstep⟩

end Machine

end Chip8
