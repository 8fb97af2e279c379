/-!
# Counting

Loops over consecutive numbers. They hold one number at a time, so a loop that ends early may
have any number of turns left.

  * `Count.foldM` : a value carried through an action for each number,
  * `Count.mapM`  : what an action answers for each number.

`foldM_eq_foldlM` and `mapM_eq_mapM` say that they are the loops over the list of the numbers.
-/

namespace Chip8.Count

variable {m : Type → Type} [Monad m] {α β : Type}

/-- Carry a value through an action for each of the `n` numbers from `start` on. -/
@[specialize]
def foldM (act : β → Nat → m β) (start : Nat) : Nat → β → m β
  | 0, b => pure b
  | n + 1, b => do foldM act (start + 1) n (← act b start)

/-- What an action answers for each of the `n` numbers from `start` on. -/
@[inline]
def mapM (act : Nat → m α) (start n : Nat) : m (Array α) :=
  foldM (fun answers i => answers.push <$> act i) start n #[]

theorem foldM_eq_foldlM (act : β → Nat → m β) (start n : Nat) (b : β) :
    foldM act start n b = (List.range' start n).foldlM act b := by
  induction n generalizing start b with
  | zero => rfl
  | succ n ih => simp only [foldM, List.range'_succ, List.foldlM_cons, ih]

theorem mapM_eq_mapM [LawfulMonad m] (act : Nat → m α) (start n : Nat) :
    mapM act start n = (List.range' start n).toArray.mapM act := by
  rw [Array.mapM_eq_foldlM, List.foldlM_toArray, mapM, foldM_eq_foldlM]

end Chip8.Count
