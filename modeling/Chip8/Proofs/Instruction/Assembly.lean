import Mathlib.Data.Fintype.Basic
import Mathlib.Data.List.TakeWhile
import Mathlib.Tactic.FinCases
import Chip8.Proofs.Instruction.Spelling
import Chip8.Proofs.Text.Numeral

/-!
# Texts are read back

`Instruction.assemble?` reads an instruction from its text, and `Instruction.bytes` gives its two
bytes. Together they undo the two readings of a byte pair: the text of a pair is read as the
instruction that the pair stands for (`Instruction.assemble?_assemblerText`), and the bytes of that
instruction are the pair (`Instruction.bytes_of_decode`). One digit cannot be recovered. A shift
does not show the second register of its pair, because it does not use it. So two pairs are written
in the same way exactly if they are the same or are the same shift (`assemblerText_eq_iff`).

  * `Mnemonic.fields`       : the operands of a text, as texts,
  * `Instruction.forms`     : how the operands behind each name are read,
  * `Instruction.assemble?` : the instruction that a text shows,
  * `Instruction.bytes`     : the two bytes of an instruction.
-/

namespace Chip8

/-! ## Operands -/

/-- The number below `n` that was read, if it is one. -/
def below? (n : Nat) (read : Option Int) : Option (Fin n) :=
  read.bind fun v => if h : 0 ≤ v ∧ v < n then some ⟨v.toNat, by omega⟩ else none

/-- A number that is below `n` is read as itself. -/
theorem below?_some {n : Nat} (k : Fin n) : below? n (some (k.val : Int)) = some k := by
  have hk := k.isLt
  rw [below?, Option.bind_some, dif_pos (by omega)]
  rfl

namespace Operand

/-- A digit. -/
def nibble? (field : String) : Option Nibble := below? 16 (Integer.readHex? field)

/-- Three digits. -/
def address? (field : String) : Option Address := below? 4096 (Integer.readHex? field)

/-- A decimal number of pixels. -/
def pixels? (field : String) : Option Nibble := below? 16 (Integer.readDecimal? field)

/-- Two digits. -/
def byte? (field : String) : Option Byte := (Integer.readHex? field).bind Byte.ofInt?

/-- `v` and a digit. -/
def register? (field : String) : Option Nibble :=
  match field.toList with
  | 'v' :: digit => nibble? (String.ofList digit)
  | _ => none

/-- `v0-`, `v` and a digit. -/
def registersTo? (field : String) : Option Nibble :=
  match field.toList with
  | 'v' :: '0' :: '-' :: last => register? (String.ofList last)
  | _ => none

/-- A register or a byte. -/
def comparand? (field : String) : Option Comparand :=
  match register? field with
  | some y => some (.register y)
  | none => (byte? field).map .byte

/-- A digit is read from its own text, and so are the other operands below. -/
theorem nibble?_text (n : Nibble) : nibble? (rows n).text = some n := by
  rw [nibble?, text, Integer.readHex?_hex, below?_some]

theorem address?_text (a : Address) : address? (address a).text = some a := by
  rw [address?, text, Integer.readHex?_hex, below?_some]

/-- A number of pixels has two digits at most, few enough to be read. -/
theorem pixels?_text (n : Nibble) : pixels? (pixels n).text = some n := by
  have hshort : ∀ n : Nibble, (Numeral.digits 10 (n.val : Int).natAbs).length ≤ 2 := by decide
  rw [pixels?, text, Integer.readDecimal?_decimal (Nat.le_trans (hshort n) (by decide)),
    below?_some]

theorem byte?_text (nn : Byte) : byte? (byte nn).text = some nn := by
  rw [byte?, text, Integer.readHex?_hex, Option.bind_some, Byte.ofInt?_toNat]

theorem register?_text (x : Nibble) : register? (register x).text = some x := by
  have htext : (register x).text.toList = 'v' :: (rows x).text.toList := by simp [text]
  simp only [register?, htext, String.ofList_toList, nibble?_text]

/-- The last one of a row of registers is read from the text of the row. -/
theorem registersTo?_text (x : Nibble) : registersTo? (registersTo x).text = some x := by
  have htext : (registersTo x).text.toList = 'v' :: '0' :: '-' :: (register x).text.toList := by
    simp [text]
  simp only [registersTo?, htext, String.ofList_toList, register?_text]

/-- A byte is not taken for a register, because no number begins with `v`. -/
theorem register?_byte (nn : Byte) : register? (byte nn).text = none := by
  rw [register?]
  split
  · rename_i digit htext
    have hfirst : 'v' ∈ (Numeral.hex 2 nn.toNat).toList := htext ▸ List.mem_cons_self
    exact absurd (Numeral.mem_marks_of_mem_hex hfirst) (by decide)
  · rfl

/-- A register and a byte are told apart by the `v` in front. -/
theorem comparand?_text (other : Comparand) : comparand? other.operand.text = some other := by
  cases other with
  | byte nn =>
      rw [Comparand.operand, comparand?, register?_byte, byte?_text]
      rfl
  | register y => rw [Comparand.operand, comparand?, register?_text]

end Operand

/-! ## Texts -/

/-- The operands of a text: what stands behind the first blank, between the commas. -/
def Mnemonic.fields (text : String) : List String :=
  match text.toList.dropWhile (· != ' ') with
  | [] => []
  | _ :: rest => (rest.splitOn ',').map String.ofList

/-- The operands of a text are the texts of the operands, if its name has no blank. -/
theorem Mnemonic.fields_text {m : Mnemonic} (h : ' ' ∉ m.name.toList) :
    fields m.text = m.operands.map Operand.text := by
  rw [fields, text]
  cases hops : m.operands with
  | nil =>
      rw [List.dropWhile_eq_nil_iff.2 (ne_mark h)]
      rfl
  | cons o os =>
      have hcomma : ∀ part ∈ ((o :: os).map Operand.text).map String.toList, ',' ∉ part := by
        intro part hpart hc
        simp only [List.mem_map] at hpart
        obtain ⟨_, ⟨o, -, rfl⟩, rfl⟩ := hpart
        exact absurd (Operand.mem_of_mem_text hc) (by decide)
      have htext : (m.name ++ " " ++ ",".intercalate ((o :: os).map Operand.text)).toList
          = m.name.toList
            ++ ' ' :: [','].intercalate (((o :: os).map Operand.text).map String.toList) := by
        simp [String.toList_intercalate]
      dsimp only
      rw [htext, (takeWhile_field _ h).2]
      dsimp only
      rw [List.splitOn_intercalate ',' hcomma (by simp), List.map_map]
      exact (List.map_congr_left fun l _ => String.ofList_toList).trans (List.map_id _)

namespace Instruction

open Operand

section Forms

variable {α β γ : Type}

/-- What is written as its name alone. -/
def plain (i : Instruction) : List String → Option Instruction
  | [] => some i
  | _ => none

/-- What is written with one operand. -/
def one (read : String → Option α) (make : α → Instruction) : List String → Option Instruction
  | [a] => (read a).map make
  | _ => none

/-- What is written with two operands. -/
def two (read : String → Option α) (read' : String → Option β) (make : α → β → Instruction) :
    List String → Option Instruction
  | [a, b] => return make (← read a) (← read' b)
  | _ => none

/-- What is written with three operands. -/
def three (read : String → Option α) (read' : String → Option β) (read'' : String → Option γ)
    (make : α → β → γ → Instruction) : List String → Option Instruction
  | [a, b, c] => return make (← read a) (← read' b) (← read'' c)
  | _ => none

end Forms

/-- The instruction that puts a register or a byte into register X. -/
def move (x : Nibble) : Comparand → Instruction
  | .byte nn => .load x nn
  | .register y => .combine .copy x y

/-- The instruction that adds a register or a byte to register X. -/
def increase (x : Nibble) : Comparand → Instruction
  | .byte nn => .add x nn
  | .register y => .combine .add x y

/-- How the operands behind a name are read. -/
def forms : List (String × (List String → Option Instruction)) := [
  ("cls", plain .clear), ("rts", plain .ret), ("low", plain (.resolution false)),
  ("high", plain (.resolution true)), ("scdown", one pixels? .scroll),
  ("jmp", one address? .jump), ("jsr", one address? .call), ("mvi", one address? .index),
  ("jmi", one address? .jumpOffset), ("skeq", two register? comparand? (.skip true)),
  ("skne", two register? comparand? (.skip false)), ("mov", two register? comparand? move),
  ("add", two register? comparand? increase), ("or", two register? register? (.combine .or)),
  ("and", two register? register? (.combine .and)),
  ("xor", two register? register? (.combine .xor)),
  ("sub", two register? register? (.combine .sub)),
  ("rsb", two register? register? (.combine .subFrom)), ("shr", one register? (.shift .right)),
  ("shl", one register? (.shift .left)), ("rand", two register? byte? .random),
  ("sprite", three register? register? nibble? .draw), ("skpr", one register? (.skipKey true)),
  ("skup", one register? (.skipKey false)), ("gdelay", one register? .readTimer),
  ("key", one register? .awaitKey), ("sdelay", one register? .setTimer),
  ("ssound", one register? .beep), ("adi", one register? .advanceIndex),
  ("font", one register? .glyph), ("bcd", one register? .storeDigits),
  ("str", one registersTo? .storeRegisters), ("ldr", one registersTo? .loadRegisters)]

/-- The instruction that a text shows. -/
def assemble? (text : String) : Option Instruction :=
  (forms.lookup (String.ofList (Mnemonic.nameOf text))).bind fun form => form (Mnemonic.fields text)

section Forms

variable {α β γ : Type} {read : String → Option α} {read' : String → Option β}
  {read'' : String → Option γ} {a b c : String} {x : α} {y : β} {z : γ}

/-- A form with one operand makes an instruction of what is read from it. -/
theorem one_some {make : α → Instruction} (hx : read a = some x) :
    one read make [a] = some (make x) := by
  rw [one, hx]
  rfl

theorem two_some {make : α → β → Instruction} (hx : read a = some x) (hy : read' b = some y) :
    two read read' make [a, b] = some (make x y) := by
  rw [two, hx, hy]
  rfl

theorem three_some {make : α → β → γ → Instruction} (hx : read a = some x)
    (hy : read' b = some y) (hz : read'' c = some z) :
    three read read' read'' make [a, b, c] = some (make x y z) := by
  rw [three, hx, hy, hz]
  rfl

end Forms

/-- Every instruction has a form that reads the operands of its mnemonic. -/
theorem exists_form (i : Instruction) :
    ∃ form, forms.lookup i.mnemonic.name = some form ∧
      form (i.mnemonic.operands.map Operand.text) = some i := by
  cases i with
  | clear => exact ⟨_, rfl, rfl⟩
  | ret => exact ⟨_, rfl, rfl⟩
  | resolution high => cases high <;> exact ⟨_, rfl, rfl⟩
  | scroll n => exact ⟨_, rfl, one_some (pixels?_text n)⟩
  | jump target => exact ⟨_, rfl, one_some (address?_text target)⟩
  | call target => exact ⟨_, rfl, one_some (address?_text target)⟩
  | skip equal x other =>
      cases equal <;> exact ⟨_, rfl, two_some (register?_text x) (comparand?_text other)⟩
  | load x nn => exact ⟨_, rfl, two_some (register?_text x) (comparand?_text (.byte nn))⟩
  | add x nn => exact ⟨_, rfl, two_some (register?_text x) (comparand?_text (.byte nn))⟩
  | combine op x y =>
      cases op with
      | copy => exact ⟨_, rfl, two_some (register?_text x) (comparand?_text (.register y))⟩
      | add => exact ⟨_, rfl, two_some (register?_text x) (comparand?_text (.register y))⟩
      | _ => exact ⟨_, rfl, two_some (register?_text x) (register?_text y)⟩
  | shift dir x => cases dir <;> exact ⟨_, rfl, one_some (register?_text x)⟩
  | index target => exact ⟨_, rfl, one_some (address?_text target)⟩
  | jumpOffset base => exact ⟨_, rfl, one_some (address?_text base)⟩
  | random x mask => exact ⟨_, rfl, two_some (register?_text x) (byte?_text mask)⟩
  | draw x y n =>
      exact ⟨_, rfl, three_some (register?_text x) (register?_text y) (nibble?_text n)⟩
  | skipKey down x => cases down <;> exact ⟨_, rfl, one_some (register?_text x)⟩
  | storeRegisters x => exact ⟨_, rfl, one_some (registersTo?_text x)⟩
  | loadRegisters x => exact ⟨_, rfl, one_some (registersTo?_text x)⟩
  | readTimer x | awaitKey x | setTimer x | beep x | advanceIndex x | glyph x | storeDigits x =>
      exact ⟨_, rfl, one_some (register?_text x)⟩

/-- The text of a pair is read as the instruction that the pair stands for, and data is not read. -/
theorem assemble?_assemblerText (opcode argument : Byte) :
    assemble? (assemblerText opcode argument) = decode opcode argument := by
  have hname := nameOf_assemblerText opcode argument
  cases h : decode opcode argument with
  | some i =>
      obtain ⟨form, hform, hread⟩ := i.exists_form
      have htext : assemblerText opcode argument = i.mnemonic.text :=
        congrArg Mnemonic.text (Mnemonic.ofBytes_of_decode h)
      rw [h] at hname
      rw [assemble?, hname, String.ofList_toList, hform, htext,
        Mnemonic.fields_text i.blank_notMem_name]
      exact hread
  | none =>
      rw [h] at hname
      rw [assemble?, hname]
      rfl

end Instruction

/-! ## Bytes -/

namespace Address

/-- The nibble above the byte of an address. -/
def top (a : Address) : Nibble := ⟨a.val / 256, by have := a.isLt; omega⟩

/-- The byte below the nibble of an address. -/
def rest (a : Address) : Byte := UInt8.ofNat (a.val % 256)

@[simp] theorem top_ofParts (x : Nibble) (b : Byte) : (ofParts x b).top = x := by
  have := b.toNat_lt
  apply Fin.ext
  simp only [top, ofParts]
  omega

@[simp] theorem rest_ofParts (x : Nibble) (b : Byte) : (ofParts x b).rest = b := by
  have := b.toNat_lt
  apply UInt8.toNat_inj.1
  simp only [rest, ofParts, UInt8.toNat_ofNat']
  omega

end Address

/-- The byte with two digits, given as numbers. -/
def Byte.pack (hi lo : Nat) : Byte := UInt8.ofNat (16 * hi + lo)

theorem Byte.ofNibbles_eq_pack (hi lo : Nibble) : ofNibbles hi lo = pack hi lo := rfl

/-- The last digit of `8XYN` for an operation. -/
def Operator.digit : Operator → Nat
  | .copy => 0x0
  | .or => 0x1
  | .and => 0x2
  | .xor => 0x3
  | .add => 0x4
  | .sub => 0x5
  | .subFrom => 0x7

/-- The last digit of `8XYN` for a shift. -/
def Shift.digit : Shift → Nat
  | .right => 0x6
  | .left => 0xE

namespace Instruction

/-- The two bytes of an instruction. A shift has a nibble to spare. -/
def bytes (spare : Nibble) : Instruction → Byte × Byte
  | .clear => (0x00, 0xE0)
  | .ret => (0x00, 0xEE)
  | .resolution high => (0x00, if high then 0xFF else 0xFE)
  | .scroll n => (0x00, .pack 0xC n)
  | .jump target => (.pack 0x1 target.top, target.rest)
  | .call target => (.pack 0x2 target.top, target.rest)
  | .skip equal x (.byte nn) => (.pack (if equal then 0x3 else 0x4) x, nn)
  | .skip equal x (.register y) => (.pack (if equal then 0x5 else 0x9) x, .pack y 0)
  | .load x nn => (.pack 0x6 x, nn)
  | .add x nn => (.pack 0x7 x, nn)
  | .combine op x y => (.pack 0x8 x, .pack y op.digit)
  | .shift dir x => (.pack 0x8 x, .pack spare dir.digit)
  | .index target => (.pack 0xA target.top, target.rest)
  | .jumpOffset base => (.pack 0xB base.top, base.rest)
  | .random x mask => (.pack 0xC x, mask)
  | .draw x y n => (.pack 0xD x, .pack y n)
  | .skipKey down x => (.pack 0xE x, if down then 0x9E else 0xA1)
  | .readTimer x => (.pack 0xF x, 0x07)
  | .awaitKey x => (.pack 0xF x, 0x0A)
  | .setTimer x => (.pack 0xF x, 0x15)
  | .beep x => (.pack 0xF x, 0x18)
  | .advanceIndex x => (.pack 0xF x, 0x1E)
  | .glyph x => (.pack 0xF x, 0x29)
  | .storeDigits x => (.pack 0xF x, 0x33)
  | .storeRegisters x => (.pack 0xF x, 0x55)
  | .loadRegisters x => (.pack 0xF x, 0x65)

variable {i : Instruction}

/-- The second byte is all that tells the instructions of this family apart. -/
theorem bytes_of_decodeSystem {argument : Byte} (h : decodeSystem argument = some i)
    (spare : Nibble) : i.bytes spare = (0x00, argument) := by
  rw [decodeSystem] at h
  split_ifs at h with hclear hret hlow hhigh hscroll
  · cases h
    rw [hclear]
    rfl
  · cases h
    rw [hret]
    rfl
  · cases h
    rw [hlow]
    rfl
  · cases h
    rw [hhigh]
    rfl
  · cases h
    have hargument := Byte.ofNibbles_high_low argument
    rw [hscroll] at hargument
    exact Prod.ext rfl hargument

/-- Shifts do not use register Y, so its digit is the nibble to spare. -/
theorem bytes_of_decodeArithmetic {x y n : Nibble} (h : decodeArithmetic x y n = some i) :
    i.bytes y = (.pack 0x8 x, .pack y n) := by
  fin_cases n <;> cases h <;> rfl

/-- The second byte says whether the key has to be down. -/
theorem bytes_of_decodeKeys {x : Nibble} {argument : Byte} (h : decodeKeys x argument = some i)
    (spare : Nibble) : i.bytes spare = (.pack 0xE x, argument) := by
  rw [decodeKeys] at h
  split_ifs at h with hdown hup
  · cases h
    rw [hdown]
    rfl
  · cases h
    rw [hup]
    rfl

/-- The second byte is the number of the instruction in its family. -/
theorem bytes_of_decodeMisc {x : Nibble} {argument : Byte} (h : decodeMisc x argument = some i)
    (spare : Nibble) : i.bytes spare = (.pack 0xF x, argument) := by
  rw [decodeMisc] at h
  split_ifs at h with hbyte <;>
    · cases h
      subst argument
      rfl

/-- The bytes of the instruction that a pair stands for are the pair. -/
theorem bytes_of_decode {opcode argument : Byte} (h : decode opcode argument = some i) :
    i.bytes argument.high = (opcode, argument) := by
  have hopcode := Byte.ofNibbles_high_low opcode
  have hargument := Byte.ofNibbles_high_low argument
  rw [Byte.ofNibbles_eq_pack] at hopcode hargument
  rw [decode] at h
  generalize opcode.high = family at h hopcode
  -- the families of a single instruction come out as they are
  fin_cases family <;>
    try (cases h; simpa [bytes, hargument] using hopcode)
  case «0» =>
    replace h : (if opcode = 0 then decodeSystem argument else none) = some i := h
    split_ifs at h with hzero
    rw [bytes_of_decodeSystem h, hzero]
  case «5» =>
    replace h : (if argument.low = 0 then some _ else none) = some i := h
    split_ifs at h with hlast
    cases h
    rw [hlast] at hargument
    exact Prod.ext hopcode hargument
  case «8» =>
    rw [bytes_of_decodeArithmetic h]
    exact Prod.ext hopcode hargument
  case «9» =>
    replace h : (if argument.low = 0 then some _ else none) = some i := h
    split_ifs at h with hlast
    cases h
    rw [hlast] at hargument
    exact Prod.ext hopcode hargument
  case «14» =>
    rw [bytes_of_decodeKeys h]
    exact Prod.ext hopcode rfl
  case «15» =>
    rw [bytes_of_decodeMisc h]
    exact Prod.ext hopcode rfl

/-- A pair is the instruction that it stands for, but for the shifts. -/
theorem eq_or_shift_of_decode {opcode argument opcode' argument' : Byte}
    (h : decode opcode argument = some i) (h' : decode opcode' argument' = some i) :
    (opcode = opcode' ∧ argument = argument') ∨ ∃ dir x, i = .shift dir x := by
  have hbytes := bytes_of_decode h
  have hbytes' := bytes_of_decode h'
  cases i with
  | shift dir x => exact Or.inr ⟨dir, x, rfl⟩
  | skip equal x other =>
      cases other <;> exact Or.inl (Prod.ext_iff.1 (hbytes.symm.trans hbytes'))
  | _ => exact Or.inl (Prod.ext_iff.1 (hbytes.symm.trans hbytes'))

end Instruction

/-! ## Pairs that are written in the same way -/

/-- Data shows its bytes. -/
theorem Mnemonic.eq_of_text_word {opcode argument opcode' argument' : Byte}
    (h : (word opcode argument).text = (word opcode' argument').text) :
    opcode = opcode' ∧ argument = argument' := by
  have hlength : ∀ b : Byte, (Numeral.hex 2 b.toNat).toList.length = 2 :=
    fun b => Numeral.length_hex_byte b.toNat_lt
  have hbyte : ∀ {b b' : Byte}, Numeral.hex 2 b.toNat = Numeral.hex 2 b'.toNat → b = b' := by
    intro b b' heq
    have hread := congrArg Operand.byte? heq
    exact Option.some.inj ((Operand.byte?_text b).symm.trans (hread.trans (Operand.byte?_text b')))
  rw [text_word, text_word, ← String.toList_inj] at h
  simp only [String.toList_append, List.append_assoc, List.append_cancel_left_eq] at h
  obtain ⟨hopcode, hargument⟩ := List.append_inj h ((hlength _).trans (hlength _).symm)
  exact ⟨hbyte (String.toList_inj.1 hopcode), hbyte (String.toList_inj.1 hargument)⟩

/-- **Two pairs are written in the same way** exactly if they are the same or the same shift. -/
theorem assemblerText_eq_iff {opcode argument opcode' argument' : Byte} :
    assemblerText opcode argument = assemblerText opcode' argument' ↔
      (opcode = opcode' ∧ argument = argument') ∨
        ∃ dir x, Instruction.decode opcode argument = some (.shift dir x) ∧
          Instruction.decode opcode' argument' = some (.shift dir x) := by
  constructor
  · intro h
    have hdecode : Instruction.decode opcode argument = Instruction.decode opcode' argument' := by
      rw [← Instruction.assemble?_assemblerText, h, Instruction.assemble?_assemblerText]
    cases hd : Instruction.decode opcode argument with
    | some i =>
        have hd' := hdecode.symm.trans hd
        rcases Instruction.eq_or_shift_of_decode hd hd' with hsame | ⟨dir, x, rfl⟩
        · exact Or.inl hsame
        · exact Or.inr ⟨dir, x, rfl, hd'⟩
    | none =>
        rw [assemblerText, assemblerText, Mnemonic.ofBytes_of_not_decode hd,
          Mnemonic.ofBytes_of_not_decode (hdecode.symm.trans hd)] at h
        exact Or.inl (Mnemonic.eq_of_text_word h)
  · rintro (⟨rfl, rfl⟩ | ⟨dir, x, hd, hd'⟩)
    · rfl
    · rw [assemblerText, assemblerText, Mnemonic.ofBytes_of_decode hd, Mnemonic.ofBytes_of_decode hd']

end Chip8
