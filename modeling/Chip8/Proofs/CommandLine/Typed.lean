import Mathlib.Data.List.TakeWhile
import Chip8.CommandLine.Options
import Chip8.Proofs.Text.Numeral

/-!
# Typed command lines

The usual way to type a command line is the program first and then options in full, each with the
texts that it takes. `Typed` is such an option and `Typed.set?` what it asks for. Reading the
words of such a line gives what its options ask for one after another (`Options.read_typed`): every
word is recognised for what it is (`words?_typed`), every option keeps its own texts
(`group_typed`), and the options are read in order (`Draft.foldlM_typed`).

A text must not look like an option (`Plain`). Numbers of steps never do, also if they are negative
(`plain_decimal`).
-/

namespace Chip8

namespace CommandLine

/-- A word that is no option and no separator. -/
def Plain (text : String) : Prop := Word.read? text = some (.value text)

instance (text : String) : Decidable (Plain text) :=
  inferInstanceAs (Decidable (Word.read? text = some (.value text)))

/-- An option in full, with the texts that follow it. -/
structure Typed where
  name : OptionName
  texts : List String := []
  deriving DecidableEq, Repr

namespace Typed

/-- The option as words of a command line. -/
def words (t : Typed) : List String := ("--" ++ String.ofList t.name.text) :: t.texts

/-- What the option asks for in addition: a number of steps, keys, each a hexadecimal number modulo
    sixteen, or one of the switches. -/
def set? (o : Options) (t : Typed) : Option Options :=
  match t with
  | ⟨.steps, [text]⟩ => (Integer.readDecimal? text).map fun n => { o with steps := some n }
  | ⟨.press, first :: more⟩ =>
    ((first :: more).mapM readKey?).map fun keys => { o with press := keys }
  | ⟨.trace, []⟩ => some { o with trace := true }
  | ⟨.list, []⟩ => some { o with list := true }
  | ⟨.screen, []⟩ => some { o with screen := true }
  | ⟨.debug, []⟩ => some { o with debug := true }
  | _ => none

/-- What an option is read as. -/
def read (t : Typed) : List Word := .option t.name none :: t.texts.map .value

/-- The phrase of an option. -/
def phrase (t : Typed) : Phrase := ⟨.option t.name none, t.texts⟩

end Typed

/-! ## Words and phrases -/

theorem words?_plain {text : String} {rest : List String} {ws : List Word} (h : Plain text)
    (hrest : words? rest = some ws) : words? (text :: rest) = some (.value text :: ws) := by
  rw [Plain] at h
  simp [words?, h, hrest]

/-- Plain texts in a row are read as values. -/
theorem words?_texts {texts rest : List String} {ws : List Word} (h : ∀ text ∈ texts, Plain text)
    (hrest : words? rest = some ws) :
    words? (texts ++ rest) = some (texts.map .value ++ ws) := by
  induction texts with
  | nil => exact hrest
  | cons text texts ih =>
      have htail := ih fun text htext => h text (List.mem_cons_of_mem _ htext)
      exact words?_plain (h text List.mem_cons_self) htail

/-- An option in full is recognised. -/
theorem read?_name (name : OptionName) :
    Word.read? ("--" ++ String.ofList name.text) = some (.option name none) := by
  cases name <;> decide +kernel

/-- Options that are typed in full are read as options, each in front of its values. -/
theorem words?_typed {typed : List Typed} (h : ∀ t ∈ typed, ∀ text ∈ t.texts, Plain text) :
    words? (typed.flatMap Typed.words) = some (typed.flatMap Typed.read) := by
  induction typed with
  | nil => rfl
  | cons t typed ih =>
      have htail := words?_texts (h t List.mem_cons_self)
        (ih fun t ht => h t (List.mem_cons_of_mem _ ht))
      rw [List.flatMap_cons, List.flatMap_cons, Typed.words, Typed.read, List.cons_append]
      simp [words?, read?_name, htail]

/-- Values stand in front of the phrases. -/
theorem group_values (texts : List String) (ws : List Word) :
    group (texts.map .value ++ ws) = (texts ++ (group ws).1, (group ws).2) := by
  induction texts with
  | nil => rfl
  | cons text texts ih =>
      rw [List.map_cons, List.cons_append, group, ih]
      rfl

/-- Each option begins a phrase of its own, with its values. -/
theorem group_typed (typed : List Typed) :
    group (typed.flatMap Typed.read) = ([], typed.map Typed.phrase) := by
  induction typed with
  | nil => rfl
  | cons t typed ih =>
      rw [List.flatMap_cons, Typed.read, List.cons_append, group, group_values, ih]
      simp [Typed.phrase]

/-! ## Drafts -/

/-- So far, the program and options have been read, and nothing that has no place. -/
structure Draft.Holds (d : Draft) (o : Options) : Prop where
  program : d.program = some o.program
  surplus : d.surplus = false
  options : { d.options with program := o.program } = o

/-- A change that leaves the program alone. -/
theorem Draft.Holds.change {d : Draft} {o : Options} (hd : d.Holds o) (f : Options → Options)
    (hprogram : ∀ o, (f o).program = o.program)
    (hother : ∀ o program, f { o with program := program } = { f o with program := program }) :
    Draft.Holds { d with options := f d.options, justNamed := false } (f o) := by
  refine ⟨?_, hd.surplus, ?_⟩
  · rw [hprogram]
    exact hd.program
  · show { f d.options with program := (f o).program } = f o
    rw [hprogram, ← hother, hd.options]

/-- An option is read as what it asks for. -/
theorem Draft.phrase_typed {d : Draft} {o o' : Options} {t : Typed} (hd : d.Holds o)
    (h : t.set? o = some o') : ∃ d', d.phrase t.phrase = .ok d' ∧ d'.Holds o' := by
  obtain ⟨name, texts⟩ := t
  cases name with
  | help => simp [Typed.set?] at h
  | sleep => simp [Typed.set?] at h
  | steps =>
      match texts, h with
      | [text], h =>
          obtain ⟨n, hn, rfl⟩ := Option.map_eq_some_iff.1 h
          refine ⟨_, ?_, hd.change ({ · with steps := some n }) (fun _ => rfl) fun _ _ => rfl⟩
          simp only [phrase, Typed.phrase, option, setting, Option.mapM_some, hn, values]
          rfl
  | press =>
      match texts, h with
      | first :: more, h =>
          obtain ⟨keys, hkeys, rfl⟩ := Option.map_eq_some_iff.1 h
          refine ⟨_, ?_, hd.change ({ · with press := keys }) (fun _ => rfl) fun _ _ => rfl⟩
          simp only [phrase, Typed.phrase, option, Draft.keys, hkeys, orWrong, values]
          rfl
  | trace =>
      match texts, h with
      | [], h =>
          cases h
          exact ⟨_, rfl, hd.change ({ · with trace := true }) (fun _ => rfl) fun _ _ => rfl⟩
  | list =>
      match texts, h with
      | [], h =>
          cases h
          exact ⟨_, rfl, hd.change ({ · with list := true }) (fun _ => rfl) fun _ _ => rfl⟩
  | screen =>
      match texts, h with
      | [], h =>
          cases h
          exact ⟨_, rfl, hd.change ({ · with screen := true }) (fun _ => rfl) fun _ _ => rfl⟩
  | debug =>
      match texts, h with
      | [], h =>
          cases h
          exact ⟨_, rfl, hd.change ({ · with debug := true }) (fun _ => rfl) fun _ _ => rfl⟩

/-- Options in a row are read as what they ask for, one after another. -/
theorem Draft.foldlM_typed {d : Draft} {o o' : Options} {typed : List Typed} (hd : d.Holds o)
    (h : typed.foldlM Typed.set? o = some o') :
    ∃ d', (typed.map Typed.phrase).foldlM Draft.phrase d = .ok d' ∧ d'.Holds o' := by
  induction typed generalizing d o with
  | nil =>
      cases h
      exact ⟨d, rfl, hd⟩
  | cons t typed ih =>
      rw [List.foldlM_cons] at h
      obtain ⟨next, hnext, hrest⟩ := Option.bind_eq_some_iff.1 h
      obtain ⟨d', hphrase, hd'⟩ := Draft.phrase_typed hd hnext
      rw [List.map_cons, List.foldlM_cons, hphrase]
      exact ih hd' hrest

/-- A draft with a program and nothing that has no place can be closed. -/
theorem Draft.Holds.close {d : Draft} {o : Options} (hd : d.Holds o) : d.close = .ok o := by
  rw [Draft.close, hd.program, hd.surplus]
  exact congrArg Except.ok hd.options

/-- A command line that is typed in the usual way is read as what its options ask for, one after
    another. -/
theorem Options.read_typed {program : String} {typed : List Typed} {o : Options}
    (hprogram : Plain program) (htyped : ∀ t ∈ typed, ∀ text ∈ t.texts, Plain text)
    (h : typed.foldlM Typed.set? { program := program } = some o) :
    Options.read (program :: typed.flatMap Typed.words) = .ok o := by
  have hwords := words?_plain hprogram (words?_typed htyped)
  have hgroup : group (.value program :: typed.flatMap Typed.read)
      = ([program], typed.map Typed.phrase) := by
    rw [group, group_typed]
  have hstart : (({} : Draft).values [program]).Holds { program := program } := ⟨rfl, rfl, rfl⟩
  obtain ⟨d, hfold, hd⟩ := Draft.foldlM_typed hstart h
  rw [Options.read, hwords]
  show (do
    let d ← (group (.value program :: typed.flatMap Typed.read)).2.foldlM Draft.phrase
      (({} : Draft).values (group (.value program :: typed.flatMap Typed.read)).1)
    d.close) = .ok o
  rw [hgroup, hfold]
  exact hd.close

/-- None of these options makes the tool wait between steps or leaves the number of steps unsaid. -/
theorem Typed.foldlM_set {typed : List Typed} {o o' : Options}
    (h : typed.foldlM Typed.set? o = some o') :
    o'.program = o.program ∧ o'.sleep = o.sleep ∧
      ((∃ n, o.steps = some n) → ∃ n, o'.steps = some n) := by
  induction typed generalizing o with
  | nil =>
      cases h
      exact ⟨rfl, rfl, id⟩
  | cons t typed ih =>
      rw [List.foldlM_cons] at h
      obtain ⟨next, hnext, hrest⟩ := Option.bind_eq_some_iff.1 h
      have hkept : next.program = o.program ∧ next.sleep = o.sleep ∧
          ((∃ n, o.steps = some n) → ∃ n, next.steps = some n) := by
        unfold Typed.set? at hnext
        split at hnext
        · obtain ⟨n, -, rfl⟩ := Option.map_eq_some_iff.1 hnext
          exact ⟨rfl, rfl, fun _ => ⟨n, rfl⟩⟩
        · obtain ⟨keys, -, rfl⟩ := Option.map_eq_some_iff.1 hnext
          exact ⟨rfl, rfl, id⟩
        all_goals cases hnext
        all_goals exact ⟨rfl, rfl, id⟩
      obtain ⟨hprogram, hsleep, hsteps⟩ := ih hrest
      exact ⟨hprogram.trans hkept.1, hsleep.trans hkept.2.1, fun hn => hsteps (hkept.2.2 hn)⟩

/-! ## Numbers of steps -/

/-- Decimal digits, one or more, are taken for a number. -/
theorem isUnsignedNumber_map {digits : List Nat} (h : ∀ d ∈ digits, d < 10) (hne : digits ≠ []) :
    isUnsignedNumber (digits.map Nat.digitChar) = true := by
  have hdecimal : ∀ d < 10, Digit.isDecimal (Nat.digitChar d) = true := by decide
  have hbreak : ∀ d < 10, Nat.digitChar d ≠ '\n' := by decide
  have hlast : (digits.map Nat.digitChar).getLast? ≠ some '\n' := by
    intro heq
    obtain ⟨d, hd, hc⟩ := List.mem_map.1 (List.mem_of_getLast? heq)
    exact hbreak d (h d hd) hc
  have hdrop : (digits.map Nat.digitChar).dropWhile Digit.isDecimal = [] := by
    refine List.dropWhile_eq_nil_iff.2 fun c hc => ?_
    obtain ⟨d, hd, rfl⟩ := List.mem_map.1 hc
    exact hdecimal d (h d hd)
  rw [isUnsignedNumber, if_neg hlast, hdrop]
  simp [hne]

/-- A number in decimal does not look like an option, also if it is negative. -/
theorem plain_decimal (n : Int) : Plain (Numeral.decimal n) := by
  obtain ⟨digits, hne, hbound, -, -, htext⟩ := Numeral.decimalChars_eq n
  have hchars : (Numeral.decimal n).toList
      = (if n < 0 then ['-'] else []) ++ digits.map Nat.digitChar := by
    rw [Numeral.decimal, String.toList_ofList, htext]
  have hnumber := isUnsignedNumber_map hbound hne
  obtain ⟨d, digits, rfl⟩ := List.exists_cons_of_ne_nil hne
  have hletter : ∀ d < 10, Nat.digitChar d ≠ '-' ∧ Nat.digitChar d ≠ 'h' := by decide
  obtain ⟨hminus, hhelp⟩ := hletter d (hbound d List.mem_cons_self)
  rw [List.map_cons] at hchars hnumber
  rw [Plain, Word.read?, hchars]
  by_cases hn : n < 0
  · rw [if_pos hn, List.singleton_append]
    simp [hminus, hnumber]
  · rw [if_neg hn, List.nil_append]
    simp [hminus]

end CommandLine

end Chip8
