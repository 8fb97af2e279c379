import Mathlib.Data.Fintype.Basic
import Mathlib.Data.List.TakeWhile
import Mathlib.Tactic.FinCases
import Chip8.Instruction.Decode
import Chip8.Instruction.Mnemonic
import Chip8.Proofs.Text.Numeral

/-!
# How instructions are spelled

Byte pairs are read twice: `Instruction.decode` reads the instruction to execute, and
`Mnemonic.ofBytes?` looks up how to write it. `Instruction.mnemonic` says how an instruction is
written, whatever its bytes, and ties the two together: `Mnemonic.ofBytes?_eq` says that a pair
is written as the instruction that it decodes to, and that neither knows a pair that the other
does not know. The text of a pair still shows its name (`Mnemonic.nameOf_text`), so the kind of
an instruction can be told from its text.
-/

namespace Chip8

/-- The name of what `8XYN` does with two registers. -/
def Operator.name : Operator → String
  | .copy => "mov"
  | .or => "or"
  | .and => "and"
  | .xor => "xor"
  | .add => "add"
  | .sub => "sub"
  | .subFrom => "rsb"

/-- The name of a shift. -/
def Shift.name : Shift → String
  | .right => "shr"
  | .left => "shl"

/-- The operand that a comparand is written as. -/
def Comparand.operand : Comparand → Operand
  | .byte nn => .byte nn
  | .register y => .register y

/-- How an instruction is written. -/
def Instruction.mnemonic : Instruction → Mnemonic
  | .clear => ⟨"cls", []⟩
  | .ret => ⟨"rts", []⟩
  | .resolution high => ⟨if high then "high" else "low", []⟩
  | .scroll n => ⟨"scdown", [.pixels n]⟩
  | .jump target => ⟨"jmp", [.address target]⟩
  | .call target => ⟨"jsr", [.address target]⟩
  | .skip equal x other => ⟨if equal then "skeq" else "skne", [.register x, other.operand]⟩
  | .load x nn => ⟨"mov", [.register x, .byte nn]⟩
  | .add x nn => ⟨"add", [.register x, .byte nn]⟩
  | .combine op x y => ⟨op.name, [.register x, .register y]⟩
  | .shift dir x => ⟨dir.name, [.register x]⟩
  | .index target => ⟨"mvi", [.address target]⟩
  | .jumpOffset base => ⟨"jmi", [.address base]⟩
  | .random x mask => ⟨"rand", [.register x, .byte mask]⟩
  | .draw x y n => ⟨"sprite", [.register x, .register y, .rows n]⟩
  | .skipKey down x => ⟨if down then "skpr" else "skup", [.register x]⟩
  | .readTimer x => ⟨"gdelay", [.register x]⟩
  | .awaitKey x => ⟨"key", [.register x]⟩
  | .setTimer x => ⟨"sdelay", [.register x]⟩
  | .beep x => ⟨"ssound", [.register x]⟩
  | .advanceIndex x => ⟨"adi", [.register x]⟩
  | .glyph x => ⟨"font", [.register x]⟩
  | .storeDigits x => ⟨"bcd", [.register x]⟩
  | .storeRegisters x => ⟨"str", [.registersTo x]⟩
  | .loadRegisters x => ⟨"ldr", [.registersTo x]⟩

namespace Mnemonic

open Instruction (decode decodeSystem decodeArithmetic decodeKeys decodeMisc)

/-! ## The two readings of a byte pair agree -/

/-- The first family is written as it is decoded. -/
theorem ofSystem?_eq (argument : Byte) :
    ofSystem? argument = (decodeSystem argument).map Instruction.mnemonic := by
  have hscroll : argument.high = 0xC ↔ argument.high.val = 0xC := Fin.ext_iff
  rw [ofSystem?, decodeSystem]
  simp only [hscroll]
  split_ifs <;> rfl

/-- Operations on two registers are written as they are decoded. -/
theorem ofArithmetic?_eq (x y n : Nibble) :
    ofArithmetic? x y n = (decodeArithmetic x y n).map Instruction.mnemonic := by
  fin_cases n <;> rfl

/-- Skips on keys are written as they are decoded. -/
theorem ofKeys?_eq (x : Nibble) (argument : Byte) :
    ofKeys? x argument = (decodeKeys x argument).map Instruction.mnemonic := by
  rw [ofKeys?, decodeKeys]
  split_ifs <;> rfl

/-- The last family is written as it is decoded, although its names come from a table. -/
theorem ofMisc?_eq (x : Nibble) (argument : Byte) :
    ofMisc? x argument = (decodeMisc x argument).map Instruction.mnemonic := by
  -- a byte of the table is one of nine, and any other byte fails the nine tests
  by_cases hmem : ∃ name, (argument, name) ∈ miscNames
  · obtain ⟨name, hname⟩ := hmem
    fin_cases hname <;> rfl
  · have hnone : miscNames.lookup argument = none := by
      rw [List.lookup_eq_none_iff]
      intro entry he
      rw [bne_iff_ne]
      rintro rfl
      exact hmem ⟨entry.2, he⟩
    have hne : ∀ b name, (b, name) ∈ miscNames → argument ≠ b := by
      rintro b name hb rfl
      exact hmem ⟨name, hb⟩
    rw [ofMisc?, hnone, decodeMisc]
    rw [if_neg (hne 0x07 "gdelay" (by decide)), if_neg (hne 0x0A "key" (by decide)),
      if_neg (hne 0x15 "sdelay" (by decide)), if_neg (hne 0x18 "ssound" (by decide)),
      if_neg (hne 0x1E "adi" (by decide)), if_neg (hne 0x29 "font" (by decide)),
      if_neg (hne 0x33 "bcd" (by decide)), if_neg (hne 0x55 "str" (by decide)),
      if_neg (hne 0x65 "ldr" (by decide))]
    rfl

/-- A byte pair is written as the instruction that it decodes to, and pairs that decode to no
    instruction have no name. -/
theorem ofBytes?_eq (opcode argument : Byte) :
    ofBytes? opcode argument = (decode opcode argument).map Instruction.mnemonic := by
  have hsystem : (if opcode = 0 then ofSystem? argument else none)
      = (if opcode = 0 then decodeSystem argument else none).map Instruction.mnemonic := by
    split
    · exact ofSystem?_eq argument
    · rfl
  have hlast : argument.low = 0 ↔ argument.low.val = 0 := Fin.ext_iff
  rw [ofBytes?, decode]
  generalize opcode.high = high
  -- the families that have no holes come out as they are
  fin_cases high <;> try rfl
  · exact hsystem
  · show (if argument.low.val = 0 then _ else none) = (if argument.low = 0 then _ else none).map _
    simp only [hlast]
    split <;> rfl
  · exact ofArithmetic?_eq opcode.low argument.high argument.low
  · show (if argument.low.val = 0 then _ else none) = (if argument.low = 0 then _ else none).map _
    simp only [hlast]
    split <;> rfl
  · exact ofKeys?_eq opcode.low argument
  · exact ofMisc?_eq opcode.low argument

/-- A pair that decodes to an instruction is written as that instruction. -/
theorem ofBytes_of_decode {opcode argument : Byte} {i : Instruction}
    (h : decode opcode argument = some i) : ofBytes opcode argument = i.mnemonic := by
  rw [ofBytes, ofBytes?_eq, h]
  rfl

/-- A pair that decodes to none is written as data. -/
theorem ofBytes_of_not_decode {opcode argument : Byte} (h : decode opcode argument = none) :
    ofBytes opcode argument = word opcode argument := by
  rw [ofBytes, ofBytes?_eq, h]
  rfl

end Mnemonic

/-! ## The name of an instruction shows in its text -/

/-- Characters of a field without a mark are not the mark. -/
theorem ne_mark {mark : Char} {field : List Char} (h : mark ∉ field) :
    ∀ c ∈ field, (c != mark) = true :=
  fun _ hc => bne_iff_ne.2 fun heq => h (heq ▸ hc)

/-- A field that ends at a mark that is not in it, and what follows. -/
theorem takeWhile_field {mark : Char} {field : List Char} (rest : List Char) (h : mark ∉ field) :
    (field ++ mark :: rest).takeWhile (· != mark) = field ∧
      (field ++ mark :: rest).dropWhile (· != mark) = mark :: rest := by
  rw [List.takeWhile_append_of_pos (ne_mark h), List.dropWhile_append_of_pos (ne_mark h),
    List.takeWhile_cons_of_neg (by simp), List.dropWhile_cons_of_neg (by simp), List.append_nil]
  exact ⟨rfl, rfl⟩

/-- The characters that operands are written with. -/
theorem Operand.mem_of_mem_text {o : Operand} {c : Char} (h : c ∈ o.text.toList) :
    c ∈ 'v' :: Numeral.marks := by
  have hhex : ∀ {width n}, c ∈ (Numeral.hex width n).toList → c ∈ 'v' :: Numeral.marks :=
    fun h => List.mem_cons_of_mem _ (Numeral.mem_marks_of_mem_hex h)
  have hfront : "v".toList ++ "v0-v".toList ⊆ 'v' :: Numeral.marks := by decide
  cases o with
  | register x =>
      rw [text, String.toList_append] at h
      exact (List.mem_append.1 h).elim (fun h => hfront (List.mem_append_left _ h)) hhex
  | registersTo x =>
      rw [text, String.toList_append] at h
      exact (List.mem_append.1 h).elim (fun h => hfront (List.mem_append_right _ h)) hhex
  | byte nn => exact hhex h
  | address a => exact hhex h
  | rows n => exact hhex h
  | pixels n => exact List.mem_cons_of_mem _ (Numeral.mem_marks_of_mem_decimal h)
  | word opcode argument =>
      rw [text, String.toList_append] at h
      exact (List.mem_append.1 h).elim hhex hhex

namespace Mnemonic

/-- The part of a text before its first blank. -/
def nameOf (text : String) : List Char := text.toList.takeWhile (· != ' ')

/-- A name without a blank is the part of the text before the first blank. -/
theorem nameOf_text {m : Mnemonic} (h : ' ' ∉ m.name.toList) :
    nameOf m.text = m.name.toList := by
  rw [nameOf, text]
  split
  · exact List.takeWhile_eq_self_iff.2 (ne_mark h)
  · rw [String.toList_append, String.toList_append, List.append_assoc]
    exact (takeWhile_field _ h).1

end Mnemonic

namespace Instruction

/-- The names of all instructions but the call and the return. -/
def plainNames : List String := [
  "cls", "low", "high", "scdown", "jmp", "skeq", "skne", "mov", "add", "or", "and", "xor", "sub",
  "rsb", "shr", "shl", "mvi", "jmi", "rand", "sprite", "skpr", "skup", "gdelay", "key", "sdelay",
  "ssound", "adi", "font", "bcd", "str", "ldr"]

/-- The call and the return are the only instructions whose names are not plain. -/
theorem name_cases (i : Instruction) :
    i = .ret ∨ (∃ target, i = .call target) ∨ i.mnemonic.name ∈ plainNames := by
  cases i with
  | ret => exact Or.inl rfl
  | call target => exact Or.inr (Or.inl ⟨target, rfl⟩)
  | resolution high => cases high <;> simp [mnemonic, plainNames]
  | skip equal x other => cases equal <;> simp [mnemonic, plainNames]
  | combine op x y => cases op <;> simp [mnemonic, Operator.name, plainNames]
  | shift dir x => cases dir <;> simp [mnemonic, Shift.name, plainNames]
  | skipKey down x => cases down <;> simp [mnemonic, plainNames]
  | _ => simp [mnemonic, plainNames]

/-- No name of an instruction has a blank in it. -/
theorem blank_notMem_name (i : Instruction) : ' ' ∉ i.mnemonic.name.toList := by
  have hplain : ∀ name ∈ plainNames, ' ' ∉ name.toList := by decide
  rcases name_cases i with rfl | ⟨target, rfl⟩ | hi
  · show ' ' ∉ "rts".toList
    decide
  · show ' ' ∉ "jsr".toList
    decide
  · exact hplain _ hi

/-- So the name is what stands in front of the first blank of the text. -/
theorem nameOf_text (i : Instruction) :
    Mnemonic.nameOf i.mnemonic.text = i.mnemonic.name.toList :=
  Mnemonic.nameOf_text i.blank_notMem_name

/-- No instruction is written as data. -/
theorem name_ne_word (i : Instruction) : i.mnemonic.name ≠ ".word" := by
  have hplain : ∀ name ∈ plainNames, name ≠ ".word" := by decide
  rcases name_cases i with rfl | ⟨target, rfl⟩ | hi
  · show "rts" ≠ ".word"
    decide
  · show "jsr" ≠ ".word"
    decide
  · exact hplain _ hi

/-- Only the return has its name. -/
theorem eq_ret_of_name {i : Instruction} (h : i.mnemonic.name = "rts") : i = .ret := by
  have hplain : "rts" ∉ plainNames := by decide
  rcases name_cases i with rfl | ⟨target, rfl⟩ | hi
  · rfl
  · exact absurd (show "jsr" = "rts" from h) (by decide)
  · exact absurd (h ▸ hi) hplain

/-- Only calls have their name. -/
theorem eq_call_of_name {i : Instruction} (h : i.mnemonic.name = "jsr") :
    ∃ target, i = .call target := by
  have hplain : "jsr" ∉ plainNames := by decide
  rcases name_cases i with rfl | ⟨target, rfl⟩ | hi
  · exact absurd (show "rts" = "jsr" from h) (by decide)
  · exact ⟨target, rfl⟩
  · exact absurd (h ▸ hi) hplain

end Instruction

/-! ## What the text of a pair tells -/

/-- Data is written as its four digits. -/
theorem Mnemonic.text_word (opcode argument : Byte) :
    (word opcode argument).text
      = ".word " ++ Numeral.hex 2 opcode.toNat ++ Numeral.hex 2 argument.toNat := by
  apply String.toList_inj.1
  simp [word, text, Operand.text]

/-- The name of data is the directive in front of it. -/
theorem Mnemonic.nameOf_word (opcode argument : Byte) :
    nameOf (word opcode argument).text = ".word".toList := by
  refine nameOf_text ?_
  show ' ' ∉ ".word".toList
  decide

theorem Mnemonic.text_call (target : Address) :
    (Instruction.call target).mnemonic.text = "jsr " ++ Numeral.hex 3 target.val := by
  apply String.toList_inj.1
  simp [Instruction.mnemonic, text, Operand.text]

/-- The name that the text of a pair begins with. -/
theorem nameOf_assemblerText (opcode argument : Byte) :
    Mnemonic.nameOf (assemblerText opcode argument)
      = match Instruction.decode opcode argument with
        | some i => i.mnemonic.name.toList
        | none => ".word".toList := by
  rw [assemblerText]
  cases h : Instruction.decode opcode argument with
  | some i =>
      rw [Mnemonic.ofBytes_of_decode h]
      exact i.nameOf_text
  | none =>
      rw [Mnemonic.ofBytes_of_not_decode h]
      exact Mnemonic.nameOf_word opcode argument

/-- A pair is written as data exactly if it is no instruction. -/
theorem assemblerText_eq_word_iff (opcode argument : Byte) :
    assemblerText opcode argument
        = ".word " ++ Numeral.hex 2 opcode.toNat ++ Numeral.hex 2 argument.toNat
      ↔ Instruction.decode opcode argument = none := by
  rw [← Mnemonic.text_word]
  constructor
  · intro h
    have hname := nameOf_assemblerText opcode argument
    rw [h, Mnemonic.nameOf_word] at hname
    cases hd : Instruction.decode opcode argument with
    | none => rfl
    | some i =>
        rw [hd] at hname
        exact absurd (String.toList_inj.1 hname).symm i.name_ne_word
  · intro h
    rw [assemblerText, Mnemonic.ofBytes_of_not_decode h]

/-- A pair is written as a return exactly if it is one. -/
theorem assemblerText_eq_rts_iff (opcode argument : Byte) :
    assemblerText opcode argument = "rts" ↔ Instruction.decode opcode argument = some .ret := by
  constructor
  · intro h
    have hname := nameOf_assemblerText opcode argument
    rw [h] at hname
    cases hd : Instruction.decode opcode argument with
    | none =>
        rw [hd] at hname
        exact absurd hname (by decide)
    | some i =>
        rw [hd] at hname
        have hrts : Mnemonic.nameOf "rts" = "rts".toList := by decide
        rw [Instruction.eq_ret_of_name (String.toList_inj.1 (hrts.symm.trans hname)).symm]
  · intro h
    rw [assemblerText, Mnemonic.ofBytes_of_decode h]
    rfl

/-- A pair is written as a call exactly if it is one. -/
theorem assemblerText_eq_jsr_iff (opcode argument : Byte) :
    (∃ a : Address, assemblerText opcode argument = "jsr " ++ Numeral.hex 3 a.val)
      ↔ ∃ target, Instruction.decode opcode argument = some (.call target) := by
  constructor
  · rintro ⟨a, h⟩
    have hname := nameOf_assemblerText opcode argument
    rw [h, ← Mnemonic.text_call, Instruction.nameOf_text] at hname
    cases hd : Instruction.decode opcode argument with
    | none =>
        rw [hd] at hname
        exact absurd hname (show "jsr".toList ≠ ".word".toList by decide)
    | some i =>
        rw [hd] at hname
        obtain ⟨target, rfl⟩ := Instruction.eq_call_of_name (String.toList_inj.1 hname).symm
        exact ⟨target, rfl⟩
  · rintro ⟨target, h⟩
    refine ⟨target, ?_⟩
    rw [assemblerText, Mnemonic.ofBytes_of_decode h, Mnemonic.text_call]

end Chip8
