import Chip8.CommandLine.Arguments
import Chip8.Text.Decimal

/-!
# Options

What a command line asks for. Phrases are read from left to right: an option takes its values,
of which there are none if `--` is attached to it, and the first value that no option takes names
the program. Asking for help or a mistake in an
option ends the reading at once; a missing program or words that have no place are found at the
end.
-/

namespace Chip8.CommandLine

/-- What a command line asks for. -/
structure Options where
  /-- The file that holds the program. -/
  program : String
  /-- How many steps to do, if that is said. -/
  steps : Option Int := some 1000
  /-- The keys that are held down. -/
  press : List Int := []
  /-- The seconds to wait between two steps. -/
  sleep : Float := 0.0
  /-- Whether to report every executed instruction. -/
  trace : Bool := false
  /-- Whether to print a listing instead of running the program. -/
  list : Bool := false
  /-- Whether to print the screen at the end. -/
  screen : Bool := false
  /-- Whether to report details. -/
  debug : Bool := false

/-- Why a command line does not lead to a run. -/
inductive Usage where
  /-- Help was asked for. -/
  | help
  /-- The command line is wrong. -/
  | wrong
  deriving DecidableEq, Repr

/-- The exit status of a program that only explains its usage. -/
def Usage.status : Usage → Nat
  | .help => 0
  | .wrong => 2

/-- The options as far as a command line has been read. -/
structure Draft where
  /-- The options, in which the program is yet to be filled in. -/
  options : Options := { program := "" }
  program : Option String := none
  /-- Whether there was a word that has no place. -/
  surplus : Bool := false
  /-- Whether the word read last names the program. -/
  justNamed : Bool := false

/-- The key that a text stands for: a hexadecimal number modulo the sixteen keys. -/
def readKey? (text : String) : Option Int := (Integer.readHex? text).map (· % 16)

/-- The value that is attached to an option: two dashes stand for none. -/
def attachedValue (text : String) : Option String := if text = "--" then none else some text

/-- Read something, or else the command line is wrong. -/
def orWrong {α : Type} : Option α → Except Usage α
  | some a => .ok a
  | none => .error .wrong

namespace Draft

/-- Read a value that no option takes. -/
def value (d : Draft) (text : String) : Draft :=
  match d.program with
  | none => { d with program := some text, justNamed := true }
  | some _ => { d with surplus := true, justNamed := false }

/-- Read values that no option takes. -/
def values (d : Draft) (texts : List String) : Draft := texts.foldl value d

/-- Read an option that takes no value. -/
def switch (d : Draft) (attached : Option String) (set : Options → Options) :
    Except Usage Draft :=
  match attached with
  | none => .ok { d with options := set d.options }
  | some _ => .error .wrong

/-- Read an option that takes one value, attached to it or else the first of those that follow,
and tell which values are left. Only an attached value may be none. -/
def setting (d : Draft) (attached : Option String) (texts : List String)
    (set : Option String → Options → Option Options) : Except Usage (Draft × List String) := do
  match attached, texts with
  | some text, _ =>
    return ({ d with options := ← orWrong (set (attachedValue text) d.options) }, texts)
  | none, text :: rest => return ({ d with options := ← orWrong (set text d.options) }, rest)
  | none, [] => throw .wrong

/-- Read the option for the keys, which takes a value attached to it or else all that follow, and
tell which values are left. -/
def keys (d : Draft) (attached : Option String) (texts : List String) :
    Except Usage (Draft × List String) := do
  let read := fun texts => orWrong (texts.mapM readKey?)
  match attached, texts with
  | some text, _ =>
    return ({ d with options.press := ← read (attachedValue text).toList }, texts)
  | none, [] => throw .wrong
  | none, _ => return ({ d with options.press := ← read texts }, [])

/-- Read an option, and tell which of the values behind it are left. -/
def option (d : Draft) (name : OptionName) (attached : Option String) (texts : List String) :
    Except Usage (Draft × List String) := do
  match name with
  | .help =>
    match attached with
    | none => throw .help
    | some _ => throw .wrong
  | .steps =>
    d.setting attached texts fun text o =>
      (text.mapM Integer.readDecimal?).map ({ o with steps := · })
  | .sleep =>
    d.setting attached texts fun text o =>
      (text.mapM Decimal.read?).map ({ o with sleep := ·.getD 0.0 })
  | .press => d.keys attached texts
  | .trace => return (← d.switch attached ({ · with trace := true }), texts)
  | .list => return (← d.switch attached ({ · with list := true }), texts)
  | .screen => return (← d.switch attached ({ · with screen := true }), texts)
  | .debug => return (← d.switch attached ({ · with debug := true }), texts)

/-- Read a phrase. A separator is fine if the program is named right before or after it. -/
def phrase (d : Draft) (p : Phrase) : Except Usage Draft := do
  let start := { d with justNamed := false }
  match p.head with
  | .option name attached =>
    let (d, rest) ← start.option name attached p.values
    return d.values rest
  | .separator =>
    return { start with surplus := d.surplus || (d.program.isSome && !d.justNamed) }.values p.values
  | .malformed => throw .wrong
  | .unknown => return { start with surplus := true }.values p.values
  | .value text => return (start.value text).values p.values

/-- The options at the end of a command line. -/
def close (d : Draft) : Except Usage Options :=
  match d.program, d.surplus with
  | some program, false => .ok { d.options with program := program }
  | _, _ => .error .wrong

end Draft

/-- What a command line asks for. -/
def Options.read (args : List String) : Except Usage Options := do
  let words ← orWrong (words? args)
  let (values, phrases) := group words
  let d ← phrases.foldlM Draft.phrase (({} : Draft).values values)
  d.close

end Chip8.CommandLine
