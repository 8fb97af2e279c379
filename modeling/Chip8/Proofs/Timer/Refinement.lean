import Chip8.Timer.Countdown
import Mathlib.Data.Nat.Init

/-!
# The delay timer as a running counter

The delay timer stores its value and the moment of its setting, and nothing happens to it until it
is read. A `Ticker` is the device it stands for: a counter that is loaded and then goes down with
every tick as it comes. On a clock that does not go back, nobody can tell the two from what they
read (`DelayTimer.answers_eq_ticker`).

  * `Moment`   : what is done with a timer, and when,
  * `DelayTimer.answers`, `Ticker.answers` : what is read at each of some moments,
  * `Steady`   : what is taken for granted about the clock,
  * `DelayTimer.Tracks` : how the ticker goes with the timer,
  * `CountsDown` : what can be said about the answers without looking at the clock.
-/

namespace Chip8

/-- What is done with a delay timer. -/
inductive TimerUse where
  | set (value : Int)
  | reset
  | read
  /-- The clock goes on, and the timer is left alone. -/
  | wait
  deriving DecidableEq, Repr

/-- What is done with a delay timer, and the clock reading at which it is done. -/
structure Moment where
  now : Float
  use : TimerUse

namespace DelayTimer

/-- The timer after a moment. -/
def next (t : DelayTimer) (m : Moment) : DelayTimer :=
  match m.use with
  | .set value => start value m.now
  | .reset => reset m.now
  | .read => t
  | .wait => t

/-- What is read at a moment, if something is. -/
def answer (frequency : Int) (t : DelayTimer) (m : Moment) : Except Fault (Option Int) :=
  match m.use with
  | .read => some <$> t.read frequency m.now
  | _ => .ok none

/-- What is read at each of some moments. -/
def answers (frequency : Int) (t : DelayTimer) : List Moment → Except Fault (List (Option Int))
  | [] => .ok []
  | m :: rest => do
      let a ← t.answer frequency m
      return a :: (← (t.next m).answers frequency rest)

end DelayTimer

/-- A counter that is kept going: what is left of its value, the clock reading at which it was
    loaded and how many ticks it has counted since. -/
structure Ticker where
  counter : Countdown
  loaded : Float
  counted : Int

namespace Ticker

/-- The counter with a new value, of which the lowest byte counts. -/
def load (value : Int) (now : Float) : Ticker := ⟨⟨(value % 256).toNat⟩, now, 0⟩

variable (ticks : Float → Float → Int)

/-- The counter at a later clock reading: it has gone down with every tick that it had not counted
    yet. -/
def advance (now : Float) (c : Ticker) : Ticker :=
  { c with
    counter := c.counter.after (ticks c.loaded now - c.counted).toNat
    counted := ticks c.loaded now }

/-- The counter after a moment. -/
def next (c : Ticker) (m : Moment) : Ticker :=
  match m.use with
  | .set value => load value m.now
  | .reset => load 0 m.now
  | .read => c.advance ticks m.now
  | .wait => c.advance ticks m.now

/-- What is read at a moment, if something is. -/
def answer (c : Ticker) (m : Moment) : Option Int :=
  match m.use with
  | .read => some (c.next ticks m).counter.left
  | _ => none

/-- What is read at each of some moments. -/
def answers (c : Ticker) : List Moment → List (Option Int)
  | [] => []
  | m :: rest => c.answer ticks m :: (c.next ticks m).answers rest

end Ticker

/-- A clock that does not go back, and whose ticks are counted between any two of its readings. -/
structure Steady (frequency : Int) (ticks : Float → Float → Int) (readings : List Float) :
    Prop where
  forward : readings.Pairwise (· ≤ ·)
  /-- The number of ticks is an integer. -/
  counted : ∀ a ∈ readings, ∀ b ∈ readings, a ≤ b →
    ticksBetween frequency a b = .ok (ticks a b)
  /-- It is zero at the reading it starts from. -/
  still : ∀ a ∈ readings, ticks a a = 0
  /-- It does not decrease while the clock does not go back. -/
  mono : ∀ a ∈ readings, ∀ b ∈ readings, ∀ c ∈ readings, b ≤ c → ticks a b ≤ ticks a c

/-- Fewer readings of a steady clock. -/
theorem Steady.sublist {frequency : Int} {ticks : Float → Float → Int}
    {readings readings' : List Float} (h : Steady frequency ticks readings)
    (hsub : readings'.Sublist readings) : Steady frequency ticks readings' where
  forward := h.forward.sublist hsub
  counted a ha b hb := h.counted a (hsub.mem ha) b (hsub.mem hb)
  still a ha := h.still a (hsub.mem ha)
  mono a ha b hb c hc := h.mono a (hsub.mem ha) b (hsub.mem hb) c (hsub.mem hc)

theorem Countdown.after_after (c : Countdown) (m n : Nat) :
    (c.after m).after n = c.after (m + n) := by
  induction m generalizing c with
  | zero => rw [Nat.zero_add]; rfl
  | succ m ih => rw [Nat.succ_add]; exact ih c.tick

/-! ## The timer and the ticker -/

namespace DelayTimer

/-- The ticker was loaded when the timer was set, and what it has counted is off the value. -/
structure Tracks (t : DelayTimer) (c : Ticker) : Prop where
  loaded : c.loaded = t.setTime
  counted : 0 ≤ c.counted
  counter : c.counter = t.countdown.after c.counted.toNat

/-- A ticker that is loaded when a timer is set tracks it. -/
theorem tracks_load (value : Int) (now : Float) :
    Tracks (start value now) (Ticker.load value now) where
  loaded := rfl
  counted := Int.le_refl 0
  counter := by
    have hwrap := Byte.toNat_wrap value
    show Countdown.mk _ = Countdown.mk _
    congr 1
    show (value % 256).toNat = (Byte.wrap value).toNat
    omega

variable {frequency : Int} {ticks : Float → Float → Int} {t : DelayTimer} {c : Ticker}

/-- The ticker catches up with the timer. -/
theorem Tracks.advance (h : t.Tracks c) {now : Float} (hle : c.counted ≤ ticks t.setTime now) :
    t.Tracks (c.advance ticks now) where
  loaded := h.loaded
  counted := by
    show 0 ≤ ticks c.loaded now
    rw [h.loaded]
    exact Int.le_trans h.counted hle
  counter := by
    have hcounted := h.counted
    show c.counter.after (ticks c.loaded now - c.counted).toNat
      = t.countdown.after (ticks c.loaded now).toNat
    rw [h.counter, h.loaded, Countdown.after_after]
    congr 1
    omega

/-- After each moment the ticker goes with the timer. -/
theorem Tracks.next (h : t.Tracks c) {m : Moment} (hle : c.counted ≤ ticks t.setTime m.now) :
    (t.next m).Tracks (c.next ticks m) := by
  obtain ⟨now, use⟩ := m
  cases use with
  | set value => exact tracks_load value now
  | reset => exact tracks_load 0 now
  | read => exact h.advance hle
  | wait => exact h.advance hle

/-- What is read from the timer is what the ticker shows. -/
theorem Tracks.answer (h : t.Tracks c) {m : Moment}
    (hticks : ticksBetween frequency t.setTime m.now = .ok (ticks t.setTime m.now))
    (hle : c.counted ≤ ticks t.setTime m.now) :
    t.answer frequency m = .ok (c.answer ticks m) := by
  obtain ⟨now, use⟩ := m
  cases use with
  | read =>
      have hafter := h.advance hle
      have hcounted := hafter.counted
      have hshown := hafter.counter
      rw [show (c.advance ticks now).counted = ticks t.setTime now by rw [← h.loaded]; rfl]
        at hcounted hshown
      rw [← Int.toNat_of_nonneg hcounted] at hticks
      show some <$> t.read frequency now = .ok (some ((c.advance ticks now).counter.left : Int))
      rw [read_eq_countdown hticks, hshown]
      rfl
  | set value => rfl
  | reset => rfl
  | wait => rfl

/-- At each moment the timer is set anew, and the ticker has counted nothing since, or it stays as
    it was set, and the ticker has counted everything since. -/
theorem Tracks.next_cases (h : t.Tracks c) (ticks : Float → Float → Int) (m : Moment) :
    ((t.next m).setTime = m.now ∧ (c.next ticks m).counted = 0) ∨
      ((t.next m).setTime = t.setTime ∧ (c.next ticks m).counted = ticks t.setTime m.now) := by
  obtain ⟨now, use⟩ := m
  cases use with
  | set value => exact Or.inl ⟨rfl, rfl⟩
  | reset => exact Or.inl ⟨rfl, rfl⟩
  | read => exact Or.inr ⟨rfl, by rw [← h.loaded]; rfl⟩
  | wait => exact Or.inr ⟨rfl, by rw [← h.loaded]; rfl⟩

/-- The clock is steady for what is still to come, and the ticker has not counted more than that. -/
theorem Tracks.steady_next (h : t.Tracks c) {m : Moment} {moments : List Moment}
    (hsteady : Steady frequency ticks (t.setTime :: m.now :: moments.map Moment.now)) :
    Steady frequency ticks ((t.next m).setTime :: moments.map Moment.now) ∧
      ∀ m' ∈ moments, (c.next ticks m).counted ≤ ticks (t.next m).setTime m'.now := by
  have hforward := hsteady.forward
  simp only [List.pairwise_cons, List.mem_cons, forall_eq_or_imp] at hforward
  obtain ⟨-, hlater, -⟩ := hforward
  have hstart : t.setTime ∈ t.setTime :: m.now :: moments.map Moment.now := List.mem_cons_self
  have hm : m.now ∈ t.setTime :: m.now :: moments.map Moment.now :=
    List.mem_cons_of_mem _ List.mem_cons_self
  have hmem : ∀ m' ∈ moments, m'.now ∈ moments.map Moment.now := fun m' hm' =>
    List.mem_map_of_mem hm'
  rcases h.next_cases ticks m with ⟨hset, hcounted⟩ | ⟨hset, hcounted⟩
  · refine ⟨hset ▸ hsteady.sublist (List.sublist_cons_self ..), fun m' hm' => ?_⟩
    rw [hset, hcounted, ← hsteady.still m.now hm]
    exact hsteady.mono _ hm _ hm _ (by simp [hmem m' hm']) (hlater _ (hmem m' hm'))
  · refine ⟨hset ▸ hsteady.sublist ((List.sublist_cons_self ..).cons_cons _), fun m' hm' => ?_⟩
    rw [hset, hcounted]
    exact hsteady.mono _ hstart _ hm _ (by simp [hmem m' hm']) (hlater _ (hmem m' hm'))

/-- Moment by moment, the timer answers what the ticker shows. -/
theorem Tracks.answers {moments : List Moment} (h : t.Tracks c)
    (hsteady : Steady frequency ticks (t.setTime :: moments.map Moment.now))
    (hahead : ∀ m ∈ moments, c.counted ≤ ticks t.setTime m.now) :
    t.answers frequency moments = .ok (c.answers ticks moments) := by
  induction moments generalizing t c with
  | nil => rfl
  | cons m moments ih =>
      have hle := hahead m List.mem_cons_self
      have hticks : ticksBetween frequency t.setTime m.now = .ok (ticks t.setTime m.now) := by
        refine hsteady.counted _ List.mem_cons_self _ (by simp) ?_
        exact List.rel_of_pairwise_cons hsteady.forward List.mem_cons_self
      obtain ⟨hsteady', hahead'⟩ := h.steady_next hsteady
      rw [DelayTimer.answers, h.answer hticks hle, Ticker.answers]
      show (do return c.answer ticks m :: (← (t.next m).answers frequency moments)) = _
      rw [ih (h.next hle) hsteady' hahead']
      rfl

/-! ## Reads leave no trace -/

/-- If all moments are answered, the first one is, and then the others are. -/
theorem answers_cons {m : Moment} {moments : List Moment} {answers : List (Option Int)}
    (h : t.answers frequency (m :: moments) = .ok answers) :
    ∃ a rest, t.answer frequency m = .ok a ∧ (t.next m).answers frequency moments = .ok rest ∧
      answers = a :: rest := by
  rw [DelayTimer.answers] at h
  cases ha : t.answer frequency m with
  | error f =>
      rw [ha] at h
      cases h
  | ok a =>
      rw [ha] at h
      cases hrest : (t.next m).answers frequency moments with
      | error f =>
          simp only [hrest, bind, Except.bind] at h
          cases h
      | ok rest =>
          simp only [hrest, bind, Except.bind] at h
          cases h
          exact ⟨a, rest, rfl, rfl, rfl⟩

/-- If one read is left out, what is read at all other moments stays the same. -/
theorem answers_eraseIdx {moments : List Moment} {answers : List (Option Int)} {i : Nat}
    {now : Float} (hread : moments[i]? = some ⟨now, .read⟩)
    (h : t.answers frequency moments = .ok answers) :
    t.answers frequency (moments.eraseIdx i) = .ok (answers.eraseIdx i) := by
  induction moments generalizing t answers i with
  | nil => cases hread
  | cons m moments ih =>
      obtain ⟨a, rest, ha, hrest, rfl⟩ := answers_cons h
      cases i with
      | zero =>
          obtain rfl : m = ⟨now, .read⟩ := Option.some.inj hread
          exact hrest
      | succ i =>
          have herased := ih hread hrest
          rw [List.eraseIdx_cons_succ, List.eraseIdx_cons_succ, DelayTimer.answers, ha]
          show (do return a :: (← (t.next m).answers frequency (moments.eraseIdx i))) = _
          rw [herased]
          rfl

end DelayTimer

/-! ## What the answers look like -/

/-- The timer is not set at any moment between two. -/
def Unset (moments : List Moment) (i j : Nat) : Prop :=
  ∀ k, i < k → k < j → ∀ now value, moments[k]? ≠ some ⟨now, .set value⟩

/-- What can be said about the answers at some moments without looking at the clock. -/
structure CountsDown (moments : List Moment) (answers : List (Option Int)) : Prop where
  length : answers.length = moments.length
  /-- Something is read exactly where the timer is read. -/
  asked : ∀ i : Nat, (∃ v, answers[i]? = some (some v)) ↔ ∃ now, moments[i]? = some ⟨now, .read⟩
  byte : ∀ {i : Nat} {v : Int}, answers[i]? = some (some v) → 0 ≤ v ∧ v ≤ 255
  /-- Nothing above the value that the timer was last set to is read. -/
  below : ∀ {i j : Nat} {now : Float} {value v : Int}, i < j →
    moments[i]? = some ⟨now, .set value⟩ → Unset moments i j → answers[j]? = some (some v) →
    v ≤ value % 256
  /-- At the clock reading of its setting, the value itself is read. -/
  fresh : ∀ {i : Nat} {now : Float} {value : Int}, moments[i]? = some ⟨now, .set value⟩ →
    moments[i + 1]? = some ⟨now, .read⟩ → answers[i + 1]? = some (some (value % 256))
  /-- As long as the timer is not set, reads do not increase. -/
  falling : ∀ {i j : Nat} {v w : Int}, i ≤ j → Unset moments i j →
    answers[i]? = some (some v) → answers[j]? = some (some w) → w ≤ v
  /-- As long as the timer is not set, zero stays zero. -/
  rests : ∀ {i j : Nat} {w : Int}, i ≤ j → Unset moments i j →
    answers[i]? = some (some 0) → answers[j]? = some (some w) → w = 0

namespace Ticker

variable {ticks : Float → Float → Int} (c : Ticker)

/-- Counting ticks takes the counter down or leaves it. -/
theorem left_advance_le (now : Float) :
    (c.advance ticks now).counter.left ≤ c.counter.left := by
  show (c.counter.after _).left ≤ _
  rw [Countdown.left_after]
  exact Nat.sub_le ..

/-- The counter goes up only when it is loaded with a value. -/
theorem left_next_le {m : Moment} (h : ∀ value, m.use ≠ .set value) :
    (c.next ticks m).counter.left ≤ c.counter.left := by
  obtain ⟨now, use⟩ := m
  cases use with
  | set value => exact absurd rfl (h value)
  | reset => exact Nat.zero_le _
  | read => exact c.left_advance_le now
  | wait => exact c.left_advance_le now

/-- The counter is a byte. -/
theorem left_next_le_limit (m : Moment) (h : c.counter.left ≤ Byte.limit) :
    (c.next ticks m).counter.left ≤ Byte.limit := by
  by_cases hset : ∃ value, m.use = .set value
  · obtain ⟨now, use⟩ := m
    obtain ⟨value, rfl⟩ := hset
    show (value % 256).toNat ≤ 255
    omega
  · exact Nat.le_trans (c.left_next_le fun value hvalue => hset ⟨value, hvalue⟩) h

/-- The counter after some moments. -/
def after (ticks : Float → Float → Int) (moments : List Moment) : Ticker :=
  moments.foldl (next ticks) c

/-- The counter stays a byte at all moments. -/
theorem left_after_le_limit (h : c.counter.left ≤ Byte.limit) (ticks : Float → Float → Int)
    (moments : List Moment) :
    (c.after ticks moments).counter.left ≤ Byte.limit := by
  induction moments generalizing c with
  | nil => exact h
  | cons m moments ih => exact ih _ (c.left_next_le_limit m h)

/-- One more moment is one more change of the counter. -/
theorem after_take_succ {moments : List Moment} {i : Nat} {m : Moment}
    (h : moments[i]? = some m) :
    c.after ticks (moments.take (i + 1)) = (c.after ticks (moments.take i)).next ticks m := by
  rw [List.take_add_one, h, after, List.foldl_append]
  rfl

theorem length_answers (moments : List Moment) :
    (c.answers ticks moments).length = moments.length := by
  induction moments generalizing c with
  | nil => rfl
  | cons m moments ih => exact congrArg (· + 1) (ih _)

/-- The answer at a moment depends on the moments before it. -/
theorem getElem?_answers (moments : List Moment) (i : Nat) :
    (c.answers ticks moments)[i]?
      = moments[i]?.map ((c.after ticks (moments.take i)).answer ticks) := by
  induction moments generalizing c i with
  | nil => rfl
  | cons m moments ih =>
      cases i with
      | zero => rfl
      | succ i => exact ih (c.next ticks m) i

/-- Only a read is answered, with what is left. -/
theorem answer_eq_some_iff {m : Moment} {v : Int} :
    c.answer ticks m = some v ↔ m.use = .read ∧ v = (c.next ticks m).counter.left := by
  obtain ⟨now, use⟩ := m
  cases use with
  | read =>
      constructor
      · rintro h
        cases h
        exact ⟨rfl, rfl⟩
      · rintro ⟨-, rfl⟩
        rfl
  | _ => exact ⟨fun h => (nomatch h), fun h => (nomatch h.1)⟩

/-- What is read is what the counter shows after the read. -/
theorem getElem?_answers_eq_some_iff {moments : List Moment} {i : Nat} {v : Int} :
    (c.answers ticks moments)[i]? = some (some v) ↔
      (∃ now, moments[i]? = some ⟨now, .read⟩) ∧
        v = (c.after ticks (moments.take (i + 1))).counter.left := by
  rw [getElem?_answers, Option.map_eq_some_iff]
  constructor
  · rintro ⟨⟨now, use⟩, hm, hanswer⟩
    obtain ⟨rfl, hv⟩ := (answer_eq_some_iff _).1 hanswer
    exact ⟨⟨now, hm⟩, by rw [c.after_take_succ hm, hv]⟩
  · rintro ⟨⟨now, hm⟩, hv⟩
    rw [c.after_take_succ hm] at hv
    exact ⟨⟨now, .read⟩, hm, (answer_eq_some_iff _).2 ⟨rfl, hv⟩⟩

/-- From one moment to another the counter goes down, if it is not loaded with a value. -/
theorem left_after_take_le {moments : List Moment} {i j : Nat} (hij : i ≤ j)
    (h : ∀ k, i ≤ k → k < j → ∀ now value, moments[k]? ≠ some ⟨now, .set value⟩) :
    (c.after ticks (moments.take j)).counter.left
      ≤ (c.after ticks (moments.take i)).counter.left := by
  induction j, hij using Nat.le_induction with
  | base => exact Nat.le_refl _
  | succ j hij ih =>
      refine Nat.le_trans ?_ (ih fun k hik hkj => h k hik (Nat.lt_succ_of_lt hkj))
      cases hm : moments[j]? with
      | none =>
          rw [List.take_add_one, hm]
          simp
      | some m =>
          rw [c.after_take_succ hm]
          refine left_next_le _ fun value hvalue => h j hij (Nat.lt_succ_self j) m.now value ?_
          rw [hm, ← hvalue]

/-- At a read the counter is not above what it was at an earlier moment, if it was not loaded with a
    value in between. -/
theorem left_read_le (ticks : Float → Float → Int) {moments : List Moment} {i j : Nat} {now : Float}
    (hij : i ≤ j) (hunset : Unset moments i j) (hread : moments[j]? = some ⟨now, .read⟩) :
    (c.after ticks (moments.take (j + 1))).counter.left
      ≤ (c.after ticks (moments.take (i + 1))).counter.left := by
  refine c.left_after_take_le (Nat.succ_le_succ hij) fun k hik hkj now' value hset => ?_
  rcases Nat.lt_succ_iff_lt_or_eq.1 hkj with hlt | rfl
  · exact hunset k hik hlt now' value hset
  · rw [hread] at hset
    cases hset

/-- The answers of a ticker that starts with a byte, on a clock that counts no ticks while it stands
    still. -/
theorem countsDown {moments : List Moment} (hbyte : c.counter.left ≤ Byte.limit)
    (hstill : ∀ m ∈ moments, ticks m.now m.now = 0) :
    CountsDown moments (c.answers ticks moments) where
  length := c.length_answers moments
  asked i := by
    constructor
    · rintro ⟨v, hv⟩
      exact (c.getElem?_answers_eq_some_iff.1 hv).1
    · intro hread
      exact ⟨_, c.getElem?_answers_eq_some_iff.2 ⟨hread, rfl⟩⟩
  byte {i v} hv := by
    obtain ⟨-, rfl⟩ := c.getElem?_answers_eq_some_iff.1 hv
    have hle := c.left_after_le_limit hbyte ticks (moments.take (i + 1))
    exact ⟨Int.natCast_nonneg _, Int.ofNat_le.2 hle⟩
  below {i j now value v} hij hset hunset hv := by
    obtain ⟨⟨now', hread⟩, rfl⟩ := c.getElem?_answers_eq_some_iff.1 hv
    have hle := c.left_read_le ticks (Nat.le_of_lt hij) hunset hread
    rw [c.after_take_succ hset] at hle
    have hloaded : (((c.after ticks (moments.take i)).next ticks ⟨now, .set value⟩).counter.left
        : Int) = value % 256 := Int.toNat_of_nonneg (Int.emod_nonneg value (by decide))
    omega
  fresh {i now value} hset hread := by
    refine c.getElem?_answers_eq_some_iff.2 ⟨⟨now, hread⟩, ?_⟩
    rw [c.after_take_succ hread, c.after_take_succ hset]
    -- no tick passes between the two
    show value % 256
      = ((Countdown.mk (value % 256).toNat).after (ticks now now - 0).toNat).left
    rw [hstill _ (List.mem_of_getElem? hread), Countdown.left_after]
    show value % 256 = ((value % 256).toNat : Int)
    omega
  falling {i j v w} hij hunset hv hw := by
    obtain ⟨-, rfl⟩ := c.getElem?_answers_eq_some_iff.1 hv
    obtain ⟨⟨now, hread⟩, rfl⟩ := c.getElem?_answers_eq_some_iff.1 hw
    exact Int.ofNat_le.2 (c.left_read_le ticks hij hunset hread)
  rests {i j w} hij hunset hv hw := by
    obtain ⟨-, hzero⟩ := c.getElem?_answers_eq_some_iff.1 hv
    obtain ⟨⟨now, hread⟩, rfl⟩ := c.getElem?_answers_eq_some_iff.1 hw
    have hle := c.left_read_le ticks hij hunset hread
    omega

end Ticker

namespace DelayTimer

/-- **The timer is a running counter.** On a clock that does not go back, every read of a new timer
    shows what is left of a counter that was loaded by the latest `set` or `reset` and has gone down
    with every tick since. So reads are bytes, start at the value that was set, go down from there
    and stay at zero, and none of them has an effect on another. -/
theorem answers_eq_ticker {frequency : Int} {ticks : Float → Float → Int} {created : Float}
    {moments : List Moment}
    (h : Steady frequency ticks (created :: moments.map Moment.now)) :
    let answers := (Ticker.load 0 created).answers ticks moments
    (reset created).answers frequency moments = .ok answers ∧ CountsDown moments answers ∧
      ∀ {i : Nat} {now : Float}, moments[i]? = some ⟨now, .read⟩ →
        (reset created).answers frequency (moments.eraseIdx i) = .ok (answers.eraseIdx i) := by
  intro answers
  have htracks : (reset created).Tracks (Ticker.load 0 created) := tracks_load 0 created
  have hanswers : (reset created).answers frequency moments = .ok answers := by
    refine htracks.answers h fun m hm => ?_
    have hforward := List.rel_of_pairwise_cons h.forward (List.mem_map_of_mem hm)
    have hmem : m.now ∈ created :: moments.map Moment.now :=
      List.mem_cons_of_mem _ (List.mem_map_of_mem hm)
    show 0 ≤ ticks created m.now
    rw [← h.still created List.mem_cons_self]
    exact h.mono _ List.mem_cons_self _ List.mem_cons_self _ hmem hforward
  refine ⟨hanswers, Ticker.countsDown _ (Nat.zero_le _) fun m hm => ?_, fun hread => ?_⟩
  · exact h.still _ (List.mem_cons_of_mem _ (List.mem_map_of_mem hm))
  · exact answers_eraseIdx hread hanswers

/-- The timer is set to 300, of which 44 counts, read at once, after half a second and after a
    second, and set to the largest byte then. -/
theorem answers_eq_ticker_set_again :
    let ticks := fun start now => (ticksBetween 60 start now).toOption.getD 0
    let moments : List Moment := [⟨0.0, .set 300⟩, ⟨0.0, .read⟩, ⟨0.5, .read⟩, ⟨1.0, .read⟩,
      ⟨1.0, .set (-1)⟩, ⟨1.0, .read⟩]
    Steady 60 ticks (0.0 :: moments.map Moment.now) ∧
      (reset 0.0).answers 60 moments
        = .ok [none, some 44, some 14, some 0, none, some 255] ∧
      (reset 0.0).answers 60 (moments.eraseIdx 2)
        = .ok [none, some 44, some 0, none, some 255] := by
  intro ticks moments
  have hreadings : ∀ a ∈ 0.0 :: moments.map Moment.now, a = 0.0 ∨ a = 0.5 ∨ a = 1.0 := by
    simp [moments]
  have hsteady : Steady 60 ticks (0.0 :: moments.map Moment.now) := by
    refine ⟨by decide +kernel, fun a ha b hb _ => ?_, by decide +kernel, by decide +kernel⟩
    rcases hreadings a ha with rfl | rfl | rfl <;> rcases hreadings b hb with rfl | rfl | rfl <;>
      rfl
  obtain ⟨hanswers, -, herased⟩ := answers_eq_ticker hsteady
  have hshown : (Ticker.load 0 0.0).answers ticks moments
      = [none, some 44, some 14, some 0, none, some 255] := by decide +kernel
  rw [hshown] at hanswers herased
  exact ⟨hsteady, hanswers, herased (i := 2) rfl⟩

end DelayTimer

end Chip8
