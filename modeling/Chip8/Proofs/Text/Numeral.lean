import Chip8.Text.Integer
import Chip8.Text.Numeral

/-!
# Numbers are read back

What `Numeral` writes, `Integer` reads: a number in hexadecimal, padded to any width, is read back
as itself (`Integer.readHex?_hex`), and so is a number in decimal that is not too long
(`Integer.readDecimal?_decimal`). The digits are recovered from their characters one by one
(`Digit.valueIn?_digitChar`), zeros in front do not count (`Digit.number_zeros`), and no character
of a number is taken for a blank, a mark or an underscore.
-/

namespace Chip8

namespace Digit

/-- The value of the character of a digit is the digit. -/
theorem valueIn?_digitChar {base d : Nat} (hbase : base ≤ 16) (h : d < base) :
    valueIn? base (Nat.digitChar d) = some d := by
  have hvalue : ∀ d < 16, value? (Nat.digitChar d) = some d := by decide
  rw [valueIn?, hvalue d (Nat.lt_of_lt_of_le h hbase)]
  simp [h]

/-- Zeros in front do not count. -/
theorem number_zeros (base k : Nat) (digits : List Nat) :
    number base (List.replicate k 0 ++ digits) = number base digits := by
  induction k with
  | zero => rfl
  | succ k ih =>
      rw [List.replicate_succ, List.cons_append, number, List.foldl_cons, Nat.mul_zero]
      exact ih

/-- The digits of a number in a base, as values and as characters. -/
theorem exists_toDigits {base : Nat} (hbase : 1 < base) (n : Nat) :
    ∃ digits : List Nat, digits ≠ [] ∧ (∀ d ∈ digits, d < base) ∧
      number base digits = n ∧ Nat.toDigits base n = digits.map Nat.digitChar := by
  induction n using Nat.strongRecOn with
  | ind n ih =>
      by_cases hn : n < base
      · refine ⟨[n], List.cons_ne_nil _ _, fun d hd => ?_, ?_, ?_⟩
        · rw [List.mem_singleton.1 hd]
          exact hn
        · simp [number]
        · rw [Nat.toDigits_of_lt_base hn, List.map_singleton]
      · -- all digits but the last are those of the quotient
        have hlt : n / base < n := Nat.div_lt_self (by omega) hbase
        obtain ⟨digits, -, hbound, hnumber, htext⟩ := ih (n / base) hlt
        refine ⟨digits ++ [n % base], by simp, fun d hd => ?_, ?_, ?_⟩
        · rcases List.mem_append.1 hd with hd | hd
          · exact hbound d hd
          · rw [List.mem_singleton.1 hd]
            exact Nat.mod_lt n (by omega)
        · rw [number_append, hnumber]
          exact Nat.div_add_mod n base
        · rw [Nat.toDigits_of_base_le hbase (by omega), htext, List.map_append, List.map_singleton]

end Digit

namespace Numeral

/-- The characters that numbers are written with. -/
def marks : List Char := "-0123456789abcdef".toList

theorem digitChar_mem_marks : ∀ d < 16, Nat.digitChar d ∈ marks := by
  decide

/-- A number in hexadecimal is its sign and the characters of its digits. -/
theorem hexChars_eq (width : Nat) (n : Int) :
    ∃ digits : List Nat, digits ≠ [] ∧ (∀ d ∈ digits, d < 16) ∧
      Digit.number 16 digits = n.natAbs ∧
      hexChars width n = (if n < 0 then ['-'] else []) ++ digits.map Nat.digitChar := by
  obtain ⟨digits, hne, hbound, hnumber, htext⟩ :=
    Digit.exists_toDigits (by decide : 1 < 16) n.natAbs
  -- zeros in front are the characters of digits too
  have hpadded : ∀ width, ∃ k, padLeft '0' width (Numeral.digits 16 n.natAbs)
      = (List.replicate k 0 ++ digits).map Nat.digitChar := by
    intro width
    refine ⟨width - (Numeral.digits 16 n.natAbs).length, ?_⟩
    rw [padLeft, List.map_append, List.map_replicate, ← htext]
    rfl
  have hfits : ∀ k, ∀ d ∈ List.replicate k 0 ++ digits, d < 16 := by
    intro k d hd
    rcases List.mem_append.1 hd with hd | hd
    · rw [List.eq_of_mem_replicate hd]
      decide
    · exact hbound d hd
  rw [hexChars]
  split
  · obtain ⟨k, hk⟩ := hpadded (width - 1)
    exact ⟨List.replicate k 0 ++ digits, by simp [hne], hfits k,
      (Digit.number_zeros 16 k digits).trans hnumber, congrArg _ hk⟩
  · obtain ⟨k, hk⟩ := hpadded width
    exact ⟨List.replicate k 0 ++ digits, by simp [hne], hfits k,
      (Digit.number_zeros 16 k digits).trans hnumber, hk⟩

/-- A byte in two digits takes no more than two. -/
theorem length_hex_byte {n : Nat} (h : n < 256) : (hex 2 n).toList.length = 2 := by
  have hdigits : (digits 16 n).length ≤ 2 :=
    (Nat.length_toDigits_le_iff (by decide) (by decide)).2 h
  have hsign : ¬ (n : Int) < 0 := by omega
  rw [hex, String.toList_ofList, hexChars, if_neg hsign, Int.natAbs_natCast, length_padLeft]
  omega

/-- A number in decimal is its sign and the characters of its digits. -/
theorem decimalChars_eq (n : Int) :
    ∃ digits : List Nat, digits ≠ [] ∧ (∀ d ∈ digits, d < 10) ∧
      Digit.number 10 digits = n.natAbs ∧
      Numeral.digits 10 n.natAbs = digits.map Nat.digitChar ∧
      decimalChars n = (if n < 0 then ['-'] else []) ++ digits.map Nat.digitChar := by
  obtain ⟨digits, hne, hbound, hnumber, htext⟩ :=
    Digit.exists_toDigits (by decide : 1 < 10) n.natAbs
  refine ⟨digits, hne, hbound, hnumber, htext, ?_⟩
  rw [decimalChars, Numeral.digits, htext]
  split <;> rfl

/-- A sign and digits are marks of numbers. -/
theorem mem_marks_of_mem_signed {digits : List Nat} (h : ∀ d ∈ digits, d < 16) {n : Int}
    {c : Char} (hc : c ∈ (if n < 0 then ['-'] else []) ++ digits.map Nat.digitChar) :
    c ∈ marks := by
  rcases List.mem_append.1 hc with hc | hc
  · split at hc
    · rw [List.mem_singleton.1 hc]
      decide
    · cases hc
  · obtain ⟨d, hd, rfl⟩ := List.mem_map.1 hc
    exact digitChar_mem_marks d (h d hd)

/-- A number in hexadecimal is written with marks of numbers only. -/
theorem mem_marks_of_mem_hex {width : Nat} {n : Int} {c : Char} (h : c ∈ (hex width n).toList) :
    c ∈ marks := by
  obtain ⟨digits, -, hbound, -, htext⟩ := hexChars_eq width n
  rw [hex, String.toList_ofList, htext] at h
  exact mem_marks_of_mem_signed hbound h

theorem mem_marks_of_mem_decimal {n : Int} {c : Char} (h : c ∈ (decimal n).toList) :
    c ∈ marks := by
  obtain ⟨digits, -, hbound, -, -, htext⟩ := decimalChars_eq n
  rw [decimal, String.toList_ofList, htext] at h
  exact mem_marks_of_mem_signed (fun d hd => Nat.lt_trans (hbound d hd) (by decide)) h

end Numeral

/-- Without blanks in it a text stays as it is. -/
theorem Blank.trim_of_no_blank {text : List Char} (h : ∀ c ∈ text, isBlank c = false) :
    trim text = text := by
  have hstart : ∀ l : List Char, (∀ c ∈ l, isBlank c = false) → l.dropWhile isBlank = l := by
    intro l hl
    cases l with
    | nil => rfl
    | cons c l => rw [List.dropWhile_cons_of_neg (by simp [hl c List.mem_cons_self])]
  rw [trim, hstart text h, hstart _ fun c hc => h c (List.mem_reverse.1 hc), List.reverse_reverse]

namespace Integer

variable {base : Nat} {digits : List Nat}

/-- The characters of digits are read as those digits. -/
theorem digitRun?_map (hbase : base ≤ 16) (h : ∀ d ∈ digits, d < base) {inside : Bool}
    (hne : inside = true ∨ digits ≠ []) :
    digitRun? base inside (digits.map Nat.digitChar) = some digits := by
  induction digits generalizing inside with
  | nil => simpa [digitRun?] using hne
  | cons d digits ih =>
      have hd := h d List.mem_cons_self
      have hscore : ∀ d < 16, Nat.digitChar d ≠ '_' := by decide
      rw [List.map_cons, digitRun?, if_neg (hscore d (Nat.lt_of_lt_of_le hd hbase)),
        Digit.valueIn?_digitChar hbase hd]
      dsimp only
      rw [ih (fun d hd => h d (List.mem_cons_of_mem _ hd)) (Or.inl rfl)]
      rfl

/-- Digits have no mark in front of them. -/
theorem dropMark_map (h : ∀ d ∈ digits, d < 16) :
    dropMark (digits.map Nat.digitChar) = digits.map Nat.digitChar := by
  match digits, h with
  | [], _ => rfl
  | [_], _ => rfl
  | z :: x :: digits, h =>
      have hmark : ∀ d < 16, Nat.digitChar d ≠ 'x' ∧ Nat.digitChar d ≠ 'X' := by decide
      obtain ⟨hlower, hupper⟩ := hmark x (h x (by simp))
      simp [dropMark, hlower, hupper]

/-- A sign in front of digits is split off, and no other character is taken for one. -/
theorem splitSign_map (h : ∀ d ∈ digits, d < 16) (n : Int) :
    splitSign ((if n < 0 then ['-'] else []) ++ digits.map Nat.digitChar)
      = (decide (n < 0), digits.map Nat.digitChar) := by
  by_cases hn : n < 0
  · rw [if_pos hn, decide_eq_true hn]
    rfl
  · rw [if_neg hn, decide_eq_false hn, List.nil_append]
    cases digits with
    | nil => rfl
    | cons d digits =>
        have hsign : ∀ d < 16, Nat.digitChar d ≠ '-' ∧ Nat.digitChar d ≠ '+' := by decide
        obtain ⟨hminus, hplus⟩ := hsign d (h d List.mem_cons_self)
        rw [List.map_cons, splitSign]
        · intro rest heq
          exact hminus (List.cons.inj heq).1
        · intro rest heq
          exact hplus (List.cons.inj heq).1

/-- The sign and the digits of a number make the number. -/
theorem ofDigits_natAbs {n : Int} (h : Digit.number base digits = n.natAbs) :
    ofDigits base (decide (n < 0)) digits = n := by
  simp only [ofDigits, h, decide_eq_true_eq]
  split <;> omega

/-- A number that is written without blanks is read without a look at blanks. -/
theorem trim_marks {text : List Char} (h : ∀ c ∈ text, c ∈ Numeral.marks) :
    Blank.trim text = text := by
  have hblank : Numeral.marks.any Blank.isBlank = false := by decide
  exact Blank.trim_of_no_blank fun c hc =>
    Bool.eq_false_iff.2 (List.any_eq_false.1 hblank c (h c hc))

/-- A number written in hexadecimal is read as itself, whatever its width. -/
theorem readHex?_hex (width : Nat) (n : Int) : readHex? (Numeral.hex width n) = some n := by
  obtain ⟨digits, hne, hbound, hnumber, htext⟩ := Numeral.hexChars_eq width n
  have hmarks : ∀ c ∈ (Numeral.hex width n).toList, c ∈ Numeral.marks :=
    fun _ => Numeral.mem_marks_of_mem_hex
  rw [readHex?, trim_marks hmarks, Numeral.hex, String.toList_ofList, htext,
    splitSign_map hbound]
  dsimp only
  rw [dropMark_map hbound, digitRun?_map (Nat.le_refl 16) hbound (Or.inr hne)]
  exact congrArg some (ofDigits_natAbs hnumber)

/-- A number written in decimal is read as itself, if it has no more digits than are read. -/
theorem readDecimal?_decimal {n : Int} (h : (Numeral.digits 10 n.natAbs).length ≤ digitLimit) :
    readDecimal? (Numeral.decimal n) = some n := by
  obtain ⟨digits, hne, hbound, hnumber, hdigits, htext⟩ := Numeral.decimalChars_eq n
  have hmarks : ∀ c ∈ (Numeral.decimal n).toList, c ∈ Numeral.marks :=
    fun _ => Numeral.mem_marks_of_mem_decimal
  rw [hdigits, List.length_map] at h
  rw [readDecimal?, trim_marks hmarks, Numeral.decimal, String.toList_ofList, htext,
    splitSign_map fun d hd => Nat.lt_trans (hbound d hd) (by decide)]
  dsimp only
  rw [digitRun?_map (by decide) hbound (Or.inr hne)]
  simp only [Option.bind_eq_bind, Option.bind_some, if_pos h]
  exact congrArg some (ofDigits_natAbs hnumber)

end Integer

end Chip8
