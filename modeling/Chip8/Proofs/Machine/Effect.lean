import Chip8.Machine.Effect
import Chip8.Proofs.Upholds

/-!
# Effects that uphold an invariant

`Upholds` for effects, with an invariant of the machine alone: what was done to the host does not
matter to it. The rules are those of the primitive effects; `Effect.Upholds.paint` is the bridge
from the screen to the machine that carries it.
-/

namespace Chip8

/-- Whether a fault is an error of the running program. -/
def Fault.IsTrap : Fault → Prop
  | .trap _ => True
  | _ => False

/-- Wrapping fails only by a division. -/
theorem Fault.modulo_not_isTrap {a n : Int} {f : Fault} (h : modulo a n = .error f) :
    ¬ f.IsTrap := by
  intro ht
  rw [modulo] at h
  split at h
  · cases h
    exact ht
  · cases h

/-- The fault of a division is no trap. -/
theorem Fault.quotient_not_isTrap {a n : Int} {f : Fault} (h : quotient a n = .error f) :
    ¬ f.IsTrap := by
  intro ht
  rw [quotient] at h
  split at h
  · cases h
    exact ht
  · cases h

/-- The remainder by a positive number is a place of its range. -/
theorem Fault.modulo_inRange {a n place : Int} (hn : 0 < n) (h : modulo a n = .ok place) :
    0 ≤ place ∧ place < n := by
  rw [modulo_of_pos a hn] at h
  cases h
  exact ⟨Int.emod_nonneg a (by omega), Int.emod_lt_of_pos a hn⟩

/-- Wrapping into a range that is not empty cannot fail. -/
theorem Fault.modulo_ne_error {a n : Int} (hn : 0 < n) (f : Fault) : modulo a n ≠ .error f := by
  rw [modulo_of_pos a hn]
  exact fun h => nomatch h

namespace Effect

variable {α : Type}

@[simp] theorem run_machine (p : Progress) : machine.run p = .ok p.machine p := rfl

/-- The effect upholds an invariant of the machine. -/
abbrev Upholds (inv : Machine → Prop) (err : Fault → Prop) (ans : α → Prop)
    (eff : Effect α) : Prop :=
  Chip8.Upholds (fun p : Progress => inv p.machine) err ans eff

namespace Upholds

variable {inv : Machine → Prop} {err : Fault → Prop} {ans : α → Prop}

/-- The machine that is looked at satisfies the invariant. -/
theorem machine : Upholds inv err inv Effect.machine := by
  intro p hp
  exact ⟨hp, hp⟩

theorem change {f : Machine → Machine} (h : ∀ m, inv m → inv (f m)) :
    Upholds inv err (fun _ => True) (Effect.change f) := by
  intro p hp
  exact ⟨trivial, h p.machine hp⟩

theorem emit {e : Event} : Upholds inv err (fun _ => True) (Effect.emit e) := by
  intro p hp
  exact ⟨trivial, hp⟩

/-- Painting that upholds an invariant of the screen upholds one of the machine, if the latter
    survives every screen that satisfies the former. -/
theorem paint {scr : Screen → Prop} {act : Paint α}
    (hscr : ∀ m, inv m → scr m.screen)
    (hinv : ∀ m s, inv m → scr s → inv { m with screen := s })
    (h : Chip8.Upholds scr err ans act) : Upholds inv err ans (Effect.paint act) := by
  intro p hp
  have hact := h p.machine.screen (hscr p.machine hp)
  simp only [Effect.paint, EStateM.run_bind, EStateM.run_get]
  cases hr : act.run p.machine.screen with
  | ok a s =>
      rw [hr] at hact
      exact ⟨hact.1, hinv p.machine s hp hact.2⟩
  | error f s =>
      rw [hr] at hact
      exact ⟨hact.1, hinv p.machine s hp hact.2⟩

end Upholds

end Effect

end Chip8
