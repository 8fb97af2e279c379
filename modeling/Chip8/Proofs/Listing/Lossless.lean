import Chip8.CommandLine.Launch
import Chip8.Proofs.Instruction.Spelling
import Chip8.Proofs.Text.Numeral

/-!
# Listings lose nothing

A listing can be read back, both as rows and as the text that is printed. `image` takes the bytes
from the rows, and `readListing?` takes the rows from the lines of the text. The first needs to
know which rows show a single byte, and only the last row of an image of odd length does
(`Row.isSingle_pair`); the second needs the numbers of a line to be read back and the lines to be
told apart (`Row.ofLine?_line`, `lines_unlines`).

  * `Row.ofLine?`      : the row that a line shows,
  * `lines`            : the lines of a text,
  * `readListing?`     : the rows of a printed listing,
  * `listing_lossless` : an image is what its listing shows, as rows and as text.
-/

namespace Chip8

open CommandLine (unlines listingText)

/-! ## Rows -/

/-- The row that a line shows: the address in front of the first colon, the word in front of the
    next blank, and the text behind two blanks. -/
def Row.ofLine? (line : String) : Option Row := do
  let address ← Integer.readHex? (String.ofList (line.toList.takeWhile (· != ':')))
  let rest := (line.toList.dropWhile (· != ':')).drop 2
  let word ← Integer.readHex? (String.ofList (rest.takeWhile (· != ' ')))
  return ⟨address, word.toNat, String.ofList ((rest.dropWhile (· != ' ')).drop 2)⟩

/-- A row is read back from its line. -/
theorem Row.ofLine?_line (r : Row) : Row.ofLine? r.line = some r := by
  have hmarks : ':' ∉ Numeral.marks ∧ ' ' ∉ Numeral.marks := by decide
  have hcolon : ':' ∉ (Numeral.hex 4 r.address).toList :=
    fun hc => hmarks.1 (Numeral.mem_marks_of_mem_hex hc)
  have hblank : ' ' ∉ (Numeral.hex 4 r.word).toList :=
    fun hc => hmarks.2 (Numeral.mem_marks_of_mem_hex hc)
  have hline : r.line.toList = (Numeral.hex 4 r.address).toList
      ++ ':' :: ' ' :: ((Numeral.hex 4 r.word).toList ++ ' ' :: ' ' :: r.text.toList) := by
    simp [line]
  obtain ⟨haddress, hrest⟩ := takeWhile_field
    (' ' :: ((Numeral.hex 4 r.word).toList ++ ' ' :: ' ' :: r.text.toList)) hcolon
  obtain ⟨hword, htext⟩ := takeWhile_field (' ' :: r.text.toList) hblank
  rw [ofLine?, hline, haddress, hrest]
  simp only [List.drop_succ_cons, List.drop_zero]
  rw [hword, htext]
  simp [Integer.readHex?_hex]

/-! ## Rows with a single byte -/

/-- A row has a single byte if its text says so. -/
theorem Row.isSingle_iff (r : Row) : r.isSingle = true ↔ ".byte".toList <+: r.text.toList :=
  List.isPrefixOf_iff_prefix

theorem Row.isSingle_single (address : Int) (b : Byte) :
    (Row.single address b).isSingle = true := by
  rw [isSingle_iff]
  show ".byte".toList <+: (".byte " ++ Numeral.hex 2 b.toNat).toList
  rw [String.toList_append]
  exact ⟨' ' :: (Numeral.hex 2 b.toNat).toList, rfl⟩

/-- No pair is written like a single byte, because the name in its text is another. -/
theorem Row.isSingle_pair (address : Int) (opcode argument : Byte) :
    (Row.pair address opcode argument).isSingle = false := by
  have hplain : ∀ name ∈ Instruction.plainNames, ¬ ".byte".toList <+: name.toList := by decide
  have hname : ¬ ".byte".toList <+: Mnemonic.nameOf (assemblerText opcode argument) := by
    rw [nameOf_assemblerText]
    cases Instruction.decode opcode argument with
    | none => decide
    | some i =>
        rcases i.name_cases with rfl | ⟨target, rfl⟩ | hi
        · show ¬ ".byte".toList <+: "rts".toList
          decide
        · show ¬ ".byte".toList <+: "jsr".toList
          decide
        · exact hplain _ hi
  rw [← Bool.not_eq_true, isSingle_iff]
  rintro ⟨rest, hrest⟩
  -- a text that begins like this has a name that begins like this
  refine hname ⟨rest.takeWhile (· != ' '), ?_⟩
  have hall : ".byte".toList.all (· != ' ') = true := by decide
  have hpass := List.all_eq_true.1 hall
  rw [Mnemonic.nameOf, ← List.takeWhile_append_of_pos hpass]
  exact congrArg _ hrest

/-- The byte of such a row is the byte it was made of. -/
theorem Row.bytes_single (address : Int) (b : Byte) : (Row.single address b).bytes = [b] := by
  rw [bytes, if_pos (isSingle_single address b)]
  simp [single]

/-- The bytes of the row of a pair are the two bytes it was made of. -/
theorem Row.bytes_pair (address : Int) (opcode argument : Byte) :
    (Row.pair address opcode argument).bytes = [opcode, argument] := by
  have hhigh : (wordOf opcode argument) / 256 = opcode.toNat := by
    have := argument.toNat_lt
    rw [wordOf]
    omega
  have hlow : UInt8.ofNat (wordOf opcode argument) = argument := by
    have := argument.toNat_lt
    apply UInt8.toNat_inj.1
    rw [UInt8.toNat_ofNat', wordOf]
    omega
  rw [bytes, isSingle_pair, if_neg Bool.false_ne_true]
  simp only [pair, hhigh, hlow, UInt8.ofNat_toNat]

/-! ## Listings -/

/-- The bytes of all rows in turn are the image. -/
theorem image_listing (origin : Int) (data : List Byte) : image (listing origin data) = data := by
  induction origin, data using listing.induct with
  | case1 origin => rfl
  | case2 origin b =>
      rw [listing, image, List.flatMap_singleton, Row.bytes_single]
  | case3 origin opcode argument rest ih =>
      rw [listing, image, List.flatMap_cons, Row.bytes_pair]
      exact congrArg (fun data => opcode :: argument :: data) ih

/-- There is a row for every two bytes, and one for a byte that is left over. -/
theorem length_listing (origin : Int) (data : List Byte) :
    (listing origin data).length = (data.length + 1) / 2 := by
  induction origin, data using listing.induct with
  | case1 origin => rfl
  | case2 origin b => simp [listing]
  | case3 origin opcode argument rest ih =>
      rw [listing, List.length_cons, ih, List.length_cons, List.length_cons]
      omega

/-- What row `k` of the listing of an image shows: its address, one byte or two, and a word that
    is not longer than its bytes. -/
structure Row.Shows (origin : Int) (data : List Byte) (k : Nat) (row : Row) : Prop where
  address : row.address = origin + 2 * k
  /-- A single byte is the last one of an image of odd length. -/
  single : ".byte".toList <+: row.text.toList ↔
    data.length % 2 = 1 ∧ k + 1 = (listing origin data).length
  word : row.word < Nat.pow 256 row.bytes.length

/-- Row `k` shows the bytes from offset `2 * k` on. -/
theorem shows_listing {origin : Int} {data : List Byte} {k : Nat} {row : Row}
    (h : (listing origin data)[k]? = some row) : row.Shows origin data k := by
  induction origin, data using listing.induct generalizing k with
  | case1 origin => cases h
  | case2 origin b =>
      cases k with
      | succ k => cases h
      | zero =>
          cases h
          refine ⟨by simp [Row.single], ?_, ?_⟩
          · rw [← Row.isSingle_iff, Row.isSingle_single]
            exact iff_of_true rfl ⟨rfl, rfl⟩
          · rw [Row.bytes_single]
            exact b.toNat_lt
  | case3 origin opcode argument rest ih =>
      -- the rows behind the first one are those of the rest, two addresses further on
      have hlength := length_listing (origin + 2) rest
      cases k with
      | zero =>
          cases h
          refine ⟨by simp [Row.pair], ?_, ?_⟩
          · rw [← Row.isSingle_iff, Row.isSingle_pair, listing, List.length_cons, List.length_cons,
              List.length_cons]
            refine iff_of_false Bool.false_ne_true fun hodd => ?_
            omega
          · rw [Row.bytes_pair]
            have ho := opcode.toNat_lt
            have ha := argument.toNat_lt
            show 256 * opcode.toNat + argument.toNat < Nat.pow 256 2
            rw [show Nat.pow 256 2 = 65536 from rfl]
            omega
      | succ k =>
          obtain ⟨haddress, hsingle, hword⟩ := ih h
          refine ⟨?_, ?_, hword⟩
          · rw [haddress]
            push_cast
            omega
          · rw [hsingle, listing, List.length_cons, List.length_cons, List.length_cons]
            omega

/-! ## Lines -/

/-- The lines of a text. -/
def lines (text : String) : List String :=
  ((text.toList.splitOn '\n').dropLast).map String.ofList

/-- The rows of a printed listing. -/
def readListing? (text : String) : Option (List Row) := (lines text).mapM Row.ofLine?

/-- Lines are joined by line breaks, with one behind the last line. -/
theorem toList_unlines (ls : List String) :
    (unlines ls).toList = ['\n'].intercalate (ls.map String.toList ++ [[]]) := by
  induction ls with
  | nil => rfl
  | cons l ls ih =>
      have hjoin : (unlines (l :: ls)).toList = l.toList ++ ['\n'] ++ (unlines ls).toList := by
        simp [unlines, String.join_cons]
      rw [hjoin, ih, List.map_cons, List.cons_append, List.intercalate_cons_of_ne_nil (by simp)]

/-- Lines without breaks in them are found again in the joined text. -/
theorem lines_unlines {ls : List String} (h : ∀ l ∈ ls, '\n' ∉ l.toList) :
    lines (unlines ls) = ls := by
  have hparts : ∀ part ∈ ls.map String.toList ++ [[]], '\n' ∉ part := by
    intro part hpart
    rcases List.mem_append.1 hpart with hpart | hpart
    · obtain ⟨l, hl, rfl⟩ := List.mem_map.1 hpart
      exact h l hl
    · rw [List.mem_singleton.1 hpart]
      exact List.not_mem_nil
  rw [lines, toList_unlines, List.splitOn_intercalate '\n' hparts (by simp), List.dropLast_concat,
    List.map_map]
  exact (List.map_congr_left fun l _ => String.ofList_toList).trans (List.map_id ls)

/-- A text that a line can show. -/
def OneLine (text : String) : Prop := '\n' ∉ text.toList

instance (text : String) : Decidable (OneLine text) :=
  inferInstanceAs (Decidable ('\n' ∉ text.toList))

theorem OneLine.append {s t : String} (hs : OneLine s) (ht : OneLine t) : OneLine (s ++ t) := by
  rw [OneLine, String.toList_append, List.mem_append]
  exact not_or.2 ⟨hs, ht⟩

theorem oneLine_of_marks {text : String} (h : ∀ c ∈ text.toList, c ∈ Numeral.marks) :
    OneLine text :=
  fun hc => absurd (h _ hc) (by decide)

theorem oneLine_hex (width : Nat) (n : Int) : OneLine (Numeral.hex width n) :=
  oneLine_of_marks fun _ => Numeral.mem_marks_of_mem_hex

/-- No operand is written with a line break. -/
theorem Operand.oneLine_text (o : Operand) : OneLine o.text :=
  fun hc => absurd (mem_of_mem_text hc) (by decide)

/-- Texts in a row, with another one in between, break no line if none of them does. -/
theorem oneLine_intercalate {separator : String} {parts : List String} (hs : OneLine separator)
    (h : ∀ part ∈ parts, OneLine part) : OneLine (separator.intercalate parts) := by
  induction parts with
  | nil =>
      show OneLine ""
      decide
  | cons part parts ih =>
      cases parts with
      | nil =>
          rw [String.intercalate_singleton]
          exact h part List.mem_cons_self
      | cons next parts =>
          rw [String.intercalate_cons_cons]
          refine ((h part List.mem_cons_self).append hs).append (ih fun part hpart => ?_)
          exact h part (List.mem_cons_of_mem _ hpart)

/-- A text breaks no line unless its name does. -/
theorem Mnemonic.oneLine_text {m : Mnemonic} (h : OneLine m.name) : OneLine m.text := by
  have hmarks : OneLine " " ∧ OneLine "," := by decide
  rw [text]
  split
  · exact h
  · refine (h.append hmarks.1).append (oneLine_intercalate hmarks.2 fun part hpart => ?_)
    obtain ⟨o, -, rfl⟩ := List.mem_map.1 hpart
    exact o.oneLine_text

/-- No pair of bytes is written with a line break. -/
theorem oneLine_assemblerText (opcode argument : Byte) :
    OneLine (assemblerText opcode argument) := by
  have hplain : ∀ name ∈ Instruction.plainNames, OneLine name := by decide
  rw [assemblerText]
  apply Mnemonic.oneLine_text
  cases h : Instruction.decode opcode argument with
  | none =>
      rw [Mnemonic.ofBytes_of_not_decode h]
      show OneLine ".word"
      decide
  | some i =>
      rw [Mnemonic.ofBytes_of_decode h]
      rcases i.name_cases with rfl | ⟨target, rfl⟩ | hi
      · show OneLine "rts"
        decide
      · show OneLine "jsr"
        decide
      · exact hplain _ hi

/-- A line of a listing breaks nowhere but in its text. -/
theorem Row.oneLine_line {r : Row} (h : OneLine r.text) : OneLine r.line := by
  have hmarks : OneLine ": " ∧ OneLine "  " := by decide
  exact ((((oneLine_hex _ _).append hmarks.1).append (oneLine_hex _ _)).append hmarks.2).append h

/-- Every row of a listing is printed on one line. -/
theorem oneLine_listing (origin : Int) (data : List Byte) :
    ∀ line ∈ (listing origin data).map Row.line, OneLine line := by
  induction origin, data using listing.induct with
  | case1 origin =>
      intro line hline
      cases hline
  | case2 origin b =>
      intro line hline
      rw [listing, List.map_singleton, List.mem_singleton] at hline
      rw [hline]
      have hname : OneLine ".byte " := by decide
      exact Row.oneLine_line (hname.append (oneLine_hex _ _))
  | case3 origin opcode argument rest ih =>
      intro line hline
      rw [listing, List.map_cons] at hline
      rcases List.mem_cons.1 hline with rfl | hline
      · exact Row.oneLine_line (oneLine_assemblerText opcode argument)
      · exact ih line hline

/-- The lines of a printed listing are those of its rows. -/
theorem lines_listing (origin : Int) (data : List Byte) :
    lines (unlines ((listing origin data).map Row.line)) = (listing origin data).map Row.line :=
  lines_unlines (oneLine_listing origin data)

/-- The rows of a listing are read back from what is printed. -/
theorem readListing?_unlines (origin : Int) (data : List Byte) :
    readListing? (unlines ((listing origin data).map Row.line)) = some (listing origin data) := by
  have hread : ∀ rows : List Row, (rows.map Row.line).mapM Row.ofLine? = some rows := by
    intro rows
    induction rows with
    | nil => rfl
    | cons row rows ih =>
        rw [List.map_cons, List.mapM_cons, Row.ofLine?_line, ih]
        rfl
  rw [readListing?, lines_listing, hread]

/-- An image is what its listing shows. There is a row for every two bytes, at addresses two apart,
    and one more if there is a byte left. The bytes of the rows are those of the image, so that no
    other image has the listing, and both can be read back from the printed lines. -/
theorem listing_lossless (origin : Int) (data : List Byte) :
    let rows := listing origin data
    rows.length = (data.length + 1) / 2 ∧
      (∀ k (row : Row), rows[k]? = some row → row.Shows origin data k) ∧
      image rows = data ∧
      (∀ origin' data', listing origin' data' = rows → data' = data) ∧
      readListing? (unlines (rows.map Row.line)) = some rows ∧
      (readListing? (listingText data.toArray)).map image = some data := by
  intro rows
  refine ⟨length_listing origin data, fun k row => shows_listing, image_listing origin data, ?_,
    readListing?_unlines origin data, ?_⟩
  · intro origin' data' h
    rw [← image_listing origin' data', h, image_listing]
  · rw [listingText, readListing?_unlines, Option.map_some, image_listing]

/-- A zero and a one make a row of two bytes, and a one alone makes a row with the same word. -/
example : (listing 0x200 [0, 1]).map Row.line = ["0200: 0001  .word 0001"] ∧
    (listing 0x200 [1]).map Row.line = ["0200: 0001  .byte 01"] := by
  decide +kernel

end Chip8
