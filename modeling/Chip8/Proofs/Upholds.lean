import Chip8.Count

/-!
# Actions that uphold an invariant

Effects on the machine and painting on the screen are actions with a state that may end early
with an error and keep what they changed until then. `Upholds inv err ans act` says of such an
action, started where `inv` holds, that it ends where `inv` holds: either with an answer that
satisfies `ans` or with an error that satisfies `err`.

The rules follow the way actions are built. An action that reads the state knows no more about
it than `inv`, so a sequence needs nothing but the answers of its parts (`Upholds.bind`), and a
loop needs nothing but its body (`Upholds.forM`, `Upholds.foldlM`, `Upholds.count`).

Where it is known how the first part of a sequence ends, `run_bind_of_ok` goes on with the rest.
-/

namespace Chip8

variable {ε σ α β : Type}

/-- What comes behind an action that ends well. -/
theorem run_bind_of_ok {act : EStateM ε σ α} {next : α → EStateM ε σ β} {a : α} {s s' : σ}
    (h : act.run s = .ok a s') : (act >>= next).run s = (next a).run s' := by
  rw [EStateM.run_bind, h]

@[simp] theorem run_ofExcept_ok (a : α) (s : σ) :
    (ofExcept (.ok a) : EStateM ε σ α).run s = .ok a s := rfl

@[simp] theorem run_ofExcept_error (e : ε) (s : σ) :
    (ofExcept (.error e) : EStateM ε σ α).run s = .error e s := rfl

/-- Started where `inv` holds, the action ends where it holds, with an answer in `ans` or an
    error in `err`. -/
def Upholds (inv : σ → Prop) (err : ε → Prop) (ans : α → Prop) (act : EStateM ε σ α) : Prop :=
  ∀ s, inv s →
    match act.run s with
    | .ok a s' => ans a ∧ inv s'
    | .error e s' => err e ∧ inv s'

namespace Upholds

variable {inv : σ → Prop} {err : ε → Prop} {ans : α → Prop} {post : β → Prop}

theorem pure {a : α} (h : ans a) : Upholds inv err ans (pure a) := by
  intro s hs
  exact ⟨h, hs⟩

theorem throw {e : ε} (h : err e) : Upholds inv err ans (throw e) := by
  intro s hs
  exact ⟨h, hs⟩

/-- A state that is read satisfies the invariant. -/
theorem get : Upholds inv err inv (get : EStateM ε σ σ) := by
  intro s hs
  exact ⟨hs, hs⟩

theorem set {s' : σ} (h : inv s') :
    Upholds inv err (fun _ => True) (set s' : EStateM ε σ PUnit) := by
  intro s _
  exact ⟨trivial, h⟩

theorem modify {f : σ → σ} (h : ∀ s, inv s → inv (f s)) :
    Upholds inv err (fun _ => True) (modify f : EStateM ε σ PUnit) := by
  intro s hs
  exact ⟨trivial, h s hs⟩

theorem ofExcept {x : Except ε α} (hok : ∀ a, x = .ok a → ans a)
    (herr : ∀ e, x = .error e → err e) :
    Upholds inv err ans (ofExcept x : EStateM ε σ α) := by
  intro s hs
  cases x with
  | ok a => exact ⟨hok a rfl, hs⟩
  | error e => exact ⟨herr e rfl, hs⟩

/-- A value whose failures alone matter. -/
theorem ofExcept_any {x : Except ε α} (herr : ∀ e, x = .error e → err e) :
    Upholds inv err (fun _ => True) (MonadExcept.ofExcept x : EStateM ε σ α) :=
  ofExcept (fun _ _ => trivial) herr

/-- The rest of a sequence may use what is known of the answer to its first part. -/
theorem bind {act : EStateM ε σ α} {next : α → EStateM ε σ β}
    (h : Upholds inv err ans act) (hnext : ∀ a, ans a → Upholds inv err post (next a)) :
    Upholds inv err post (act >>= next) := by
  intro s hs
  have hact := h s hs
  rw [EStateM.run_bind]
  cases hr : act.run s with
  | ok a s' =>
      rw [hr] at hact
      exact hnext a hact.1 s' hact.2
  | error e s' =>
      rw [hr] at hact
      exact hact

/-- Less may be asked of the answer and of the error. -/
theorem mono {err' : ε → Prop} {ans' : α → Prop} {act : EStateM ε σ α}
    (h : Upholds inv err ans act) (herr : ∀ e, err e → err' e) (hans : ∀ a, ans a → ans' a) :
    Upholds inv err' ans' act := by
  intro s hs
  have hact := h s hs
  cases hr : act.run s with
  | ok a s' =>
      rw [hr] at hact
      exact ⟨hans a hact.1, hact.2⟩
  | error e s' =>
      rw [hr] at hact
      exact ⟨herr e hact.1, hact.2⟩

/-- An answer that nothing needs to be known about. -/
theorem any {act : EStateM ε σ α} (h : Upholds inv err ans act) :
    Upholds inv err (fun _ => True) act :=
  h.mono (fun _ he => he) (fun _ _ => trivial)

theorem forM {l : List β} {body : β → EStateM ε σ PUnit}
    (h : ∀ b ∈ l, Upholds inv err (fun _ => True) (body b)) :
    Upholds inv err (fun _ => True) (l.forM body) := by
  induction l with
  | nil => exact Upholds.pure trivial
  | cons b l ih =>
      refine Upholds.bind (h b List.mem_cons_self) fun _ _ => ?_
      exact ih fun b' hb' => h b' (List.mem_cons_of_mem b hb')

/-- A loop that passes an answer on has to pass on what is known of it. -/
theorem foldlM {l : List β} {body : α → β → EStateM ε σ α}
    (h : ∀ a, ans a → ∀ b ∈ l, Upholds inv err ans (body a b)) :
    ∀ a, ans a → Upholds inv err ans (l.foldlM body a) := by
  induction l with
  | nil =>
      intro a ha
      exact Upholds.pure ha
  | cons b l ih =>
      intro a ha
      rw [List.foldlM_cons]
      -- the rest of the loop starts with the answer of the first turn
      refine Upholds.bind (h a ha b List.mem_cons_self) fun a' ha' => ?_
      exact ih (fun a ha b' hb' => h a ha b' (List.mem_cons_of_mem b hb')) a' ha'

/-- A loop over consecutive numbers. -/
theorem count {start n : Nat} {body : α → Nat → EStateM ε σ α} {a : α}
    (h : ∀ a, ans a → ∀ k, Upholds inv err ans (body a k)) (ha : ans a) :
    Upholds inv err ans (Count.foldM body start n a) := by
  rw [Count.foldM_eq_foldlM]
  exact foldlM (fun a ha k _ => h a ha k) a ha

end Upholds

end Chip8
