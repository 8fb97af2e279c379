import Chip8.Listing
import Chip8.Proofs.Machine.Reachable
import Chip8.Proofs.Machine.Stores
import Chip8.Proofs.Machine.Veil

/-!
# The listing and the run

A listing shows the byte pairs of a program image, and a machine that the image was loaded into
fetches byte pairs from its memory. As long as the program has not written over a pair, both are
the same: the machine executes what the row of the listing says, and tracing reports the text of
that row (`Machine.step_listed`).

  * `getElem?_listing`     : the rows of a listing,
  * `Machine.after`        : the machine after some steps, whether they succeed or fail,
  * `Machine.Spares`       : that no step of a run writes to a cell,
  * `Machine.after_memory` : a cell that a run spares keeps its byte,
  * `Machine.step_listed`  : what is fetched and traced is the row of the listing.
-/

namespace Chip8

/-- Row `k` of a listing shows bytes `2 * k` and `2 * k + 1`. -/
theorem getElem?_listing (origin : Int) {bytes : List Byte} {k : Nat}
    (h : 2 * k + 1 < bytes.length) :
    (listing origin bytes)[k]?
      = some (Row.pair (origin + 2 * k) bytes[2 * k] bytes[2 * k + 1]) := by
  induction k generalizing origin bytes with
  | zero =>
      match bytes, h with
      | opcode :: argument :: rest, _ => simp [listing]
  | succ k ih =>
      match bytes, h with
      | opcode :: argument :: rest, h =>
          have hrest : 2 * k + 1 < rest.length := by
            simp only [List.length_cons] at h
            omega
          have haddress : origin + 2 + 2 * (k : Int) = origin + 2 * ((k + 1 : Nat) : Int) := by
            push_cast
            omega
          rw [listing, List.getElem?_cons_succ, ih (origin + 2) hrest, haddress]
          simp only [Nat.mul_succ, List.getElem_cons_succ]

namespace Machine

/-- The machine after steps on these inputs, whether they succeed or fail. -/
def after (cfg : Config) (inputs : List Input) (m : Machine) : Machine :=
  match inputs with
  | [] => m
  | input :: inputs => after cfg inputs (m.step cfg input).machine

theorem after_cons (cfg : Config) (input : Input) (inputs : List Input) (m : Machine) :
    m.after cfg (input :: inputs) = (m.step cfg input).machine.after cfg inputs := rfl

theorem after_nil (cfg : Config) (m : Machine) : m.after cfg [] = m := rfl

/-- No step on these inputs writes to a cell of memory. -/
def Spares (cfg : Config) (cell : Nat) (inputs : List Input) (m : Machine) : Prop :=
  match inputs with
  | [] => True
  | input :: inputs => (∀ i, m.next? cfg = some i → ¬ i.WritesTo m cell) ∧
      Spares cfg cell inputs (m.step cfg input).machine

/-- A cell that no step writes to keeps its byte. -/
theorem after_memory {cfg : Config} (hsize : cfg.memorySize = 4096) {cell : Nat}
    {inputs : List Input} {m : Machine} (h : m.Spares cfg cell inputs) :
    (m.after cfg inputs).memory[cell]? = m.memory[cell]? := by
  induction inputs generalizing m with
  | nil => rfl
  | cons input inputs ih => exact (ih h.2).trans (step_memory hsize input h.1)

/-- A byte of the program that a run has spared is where it was loaded. -/
theorem byteAt_after {m : Machine} (hm : m.Valid) (report : Bool) {image : Array Byte}
    (hfits : image.size ≤ 3584) {inputs : List Input} {k : Nat} (hk : k < image.size)
    (hspares : (m.load {} image).machine.Spares { trace := report } (0x200 + k) inputs) :
    ((m.load {} image).machine.after { trace := report } inputs).byteAt? {} (0x200 + k : Nat)
      = some image[k] := by
  have hloaded := hm.byteAt_load hfits hk
  rw [byteAt?_of_lt (by omega)] at hloaded ⊢
  exact (after_memory rfl hspares).trans hloaded

/-- The next step of a machine is what a row of a listing says: the row has the address and the word
    that is fetched, and the message that tracing adds to the step ends with its text. -/
structure Follows (m : Machine) (pair : Fetched) (row : Row) : Prop where
  fetched : m.fetched? {} = some pair
  address : row.address = m.counter
  word : row.word = wordOf pair.opcode pair.argument
  traced : ∀ input, (m.step { trace := true } input).events =
    #[.logged (.traced pair.address pair.opcode pair.argument)] ++ (m.step {} input).events
  text : (Message.traced pair.address pair.opcode pair.argument).text =
    "PC 0x" ++ Numeral.hex 3 row.address ++ ": " ++ Numeral.hex 2 pair.opcode.toNat
      ++ Numeral.hex 2 pair.argument.toNat ++ "  " ++ row.text

/-- A machine that is not halted follows the row of the pair that it fetches. -/
theorem follows_pair {m : Machine} {opcode argument : Byte} (hh : m.halted = false)
    (hp : m.fetched? {} = some ⟨m.counter, opcode, argument⟩) :
    m.Follows ⟨m.counter, opcode, argument⟩ (Row.pair m.counter opcode argument) where
  fetched := hp
  address := rfl
  word := rfl
  traced := fun input => congrArg Outcome.events (step_trace {} input true hh hp)
  text := rfl

/-- A program is loaded into a fresh machine and runs, traced or not, on any host. Wherever the
    machine has come to a byte pair of the program that it has not written over, it fetches the
    pair that the listing of the program shows in its row for that address. -/
theorem step_listed (report : Bool) (now : Float) {image : Array Byte} (inputs : List Input)
    {k : Nat} (hfits : image.size ≤ 3584) (hk : 2 * k + 1 < image.size) :
    let cfg : Config := { trace := report }
    let loaded := ((initial cfg now).load cfg image).machine
    let m := loaded.after cfg inputs
    m.halted = false → m.counter = (0x200 + 2 * k : Nat) →
      loaded.Spares cfg (0x200 + 2 * k) inputs → loaded.Spares cfg (0x200 + 2 * k + 1) inputs →
      ∃ pair row, (listing 0x200 image.toList)[k]? = some row ∧ m.Follows pair row := by
  intro cfg loaded m hh hcounter hopcode hargument
  -- both bytes are still what was loaded, because nothing has been written to their cells
  have hopcode' : m.byteAt? {} m.counter = some image[2 * k] := by
    rw [hcounter]
    exact byteAt_after (Valid.initial now) report hfits _ hopcode
  have hargument' : m.byteAt? {} (m.counter + 1) = some image[2 * k + 1] := by
    rw [hcounter]
    exact byteAt_after (Valid.initial now) report hfits hk hargument
  have hp : m.fetched? {} = some ⟨m.counter, image[2 * k], image[2 * k + 1]⟩ := by
    rw [fetched?, hopcode', hargument']
    rfl
  refine ⟨_, _, ?_, follows_pair hh hp⟩
  have hlength : 2 * k + 1 < image.toList.length := by
    rw [Array.length_toList]
    exact hk
  have haddress : (0x200 : Int) + 2 * k = m.counter := by omega
  rw [getElem?_listing 0x200 hlength, haddress]
  rfl

/-- The program `F055 6A2A` writes to the first cell of memory and comes to its second row. -/
theorem step_listed_second_row :
    let loaded := ((initial {} 0.0).load {} #[0xF0, 0x55, 0x6A, 0x2A]).machine
    let m := loaded.after {} [⟨fun _ => false, 0.0, 0⟩]
    m.halted = false ∧ m.counter = (0x200 + 2 * 1 : Nat) ∧
      ∃ pair row, (listing 0x200 [0xF0, 0x55, 0x6A, 0x2A])[1]? = some row ∧
        m.Follows pair row := by
  have hfits : (#[0xF0, 0x55, 0x6A, 0x2A] : Array Byte).size ≤ 3584 := by decide
  have hlisted := step_listed false 0.0 [⟨fun _ => false, 0.0, 0⟩] (k := 1) hfits (by decide)
  have hp := (Valid.initial 0.0).fetched_load hfits (k := 0) (by decide) rfl
  have hfresh := load_sameBut {} #[0xF0, 0x55, 0x6A, 0x2A] (initial {} 0.0)
  dsimp only at hlisted ⊢
  -- nothing else needs to be known about the loaded machine
  generalize ((initial {} 0.0).load {} #[0xF0, 0x55, 0x6A, 0x2A]).machine = loaded
    at hlisted hp hfresh ⊢
  have hindex : loaded.index = 0 := hfresh .index (by decide)
  have hcounter : loaded.counter = 0x200 := hfresh .counter (by decide)
  have hhalted : loaded.halted = false := hfresh .halted (by decide)
  have hd : Instruction.decode 0xF0 0x55 = some (.storeRegisters 0) := by decide
  have hnext : loaded.next? {} = some (.storeRegisters 0) :=
    (next?_of_fetched {} hhalted hp).trans hd
  have hmoved := step_sameBut_of_next {} ⟨fun _ => false, 0.0, 0⟩ hnext
  have hspares : ∀ cell : Nat, cell ≠ 0 →
      loaded.Spares {} cell [⟨fun _ => false, 0.0, 0⟩] := by
    refine fun cell hcell => ⟨fun i hi hwrites => ?_, trivial⟩
    cases hnext.symm.trans hi
    obtain ⟨k, hk, -, heq⟩ := hwrites
    rw [hindex] at heq
    have hk : k ≤ 0 := hk
    omega
  rw [after_cons, after_nil] at hlisted ⊢
  have hrunning := Eq.trans (hmoved .halted (by decide)) hhalted
  have hplace : (loaded.step {} ⟨fun _ => false, 0.0, 0⟩).machine.counter
      = (0x200 + 2 * 1 : Nat) := by
    rw [hmoved .counter (by decide), advance, hcounter]
    rfl
  exact ⟨hrunning, hplace,
    hlisted hrunning hplace (hspares _ (by decide)) (hspares _ (by decide))⟩

end Machine

end Chip8
