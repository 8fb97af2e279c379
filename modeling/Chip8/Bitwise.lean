/-!
# Bitwise operations on integers

An integer is read as an endless row of bits in two's complement: bit `k` of `-1 - m` is the
opposite of bit `k` of `m`. Conjunction, disjunction and exclusive or act bit by bit, which is
what `testBit_and`, `testBit_or` and `testBit_xor` say.
-/

namespace Chip8.Bitwise

/-- Bit `k` of an integer in two's complement. -/
def testBit : Int → Nat → Bool
  | .ofNat m, k => m.testBit k
  | .negSucc m, k => !m.testBit k

/-- The bits of `m` that `n` does not have. -/
def clear (m n : Nat) : Nat := m ^^^ (m &&& n)

/-- Bitwise conjunction. -/
def and : Int → Int → Int
  | .ofNat m, .ofNat n => .ofNat (m &&& n)
  | .ofNat m, .negSucc n => .ofNat (clear m n)
  | .negSucc m, .ofNat n => .ofNat (clear n m)
  | .negSucc m, .negSucc n => .negSucc (m ||| n)

/-- Bitwise disjunction. -/
def or : Int → Int → Int
  | .ofNat m, .ofNat n => .ofNat (m ||| n)
  | .ofNat m, .negSucc n => .negSucc (clear n m)
  | .negSucc m, .ofNat n => .negSucc (clear m n)
  | .negSucc m, .negSucc n => .negSucc (m &&& n)

/-- Bitwise exclusive or. -/
def xor : Int → Int → Int
  | .ofNat m, .ofNat n => .ofNat (m ^^^ n)
  | .ofNat m, .negSucc n => .negSucc (m ^^^ n)
  | .negSucc m, .ofNat n => .negSucc (m ^^^ n)
  | .negSucc m, .negSucc n => .ofNat (m ^^^ n)

theorem testBit_clear (m n k : Nat) : (clear m n).testBit k = (m.testBit k && !n.testBit k) := by
  rw [clear, Nat.testBit_xor, Nat.testBit_and]
  cases m.testBit k <;> cases n.testBit k <;> rfl

theorem testBit_and (a b : Int) (k : Nat) :
    testBit (and a b) k = (testBit a k && testBit b k) := by
  cases a <;> cases b <;>
    simp [and, testBit, testBit_clear, Nat.testBit_and, Nat.testBit_or, Bool.and_comm]

theorem testBit_or (a b : Int) (k : Nat) :
    testBit (or a b) k = (testBit a k || testBit b k) := by
  cases a <;> cases b <;>
    simp [or, testBit, testBit_clear, Nat.testBit_and, Nat.testBit_or, Bool.or_comm]

theorem testBit_xor (a b : Int) (k : Nat) :
    testBit (xor a b) k = Bool.xor (testBit a k) (testBit b k) := by
  cases a <;> cases b <;> simp [xor, testBit, Nat.testBit_xor]

end Chip8.Bitwise
