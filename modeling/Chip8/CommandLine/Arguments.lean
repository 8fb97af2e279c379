import Chip8.Text.Digit

/-!
# Arguments

How the words of a command line are told apart. An option is written with two dashes and its
name, which may be cut short as long as it stays unambiguous, and with `=` and a value if it has
one. After the word `--` everything is a value. A negative number, a word with a blank in it and
a single dash are values too.

  * `Word.read?`  : what one word is, unless it is ambiguous,
  * `Phrase`      : an option with the values that follow it,
  * `phrases?`    : the phrases of a command line.
-/

namespace Chip8.CommandLine

/-- The options there are. -/
inductive OptionName where
  | help
  | steps
  | press
  | sleep
  | trace
  | list
  | screen
  | debug
  deriving DecidableEq, Repr

namespace OptionName

/-- All options. -/
def all : List OptionName := [help, steps, press, sleep, trace, list, screen, debug]

/-- The name of an option without its dashes. -/
def text : OptionName → List Char
  | help => "help".toList
  | steps => "steps".toList
  | press => "press".toList
  | sleep => "sleep".toList
  | trace => "trace".toList
  | list => "list".toList
  | screen => "screen".toList
  | debug => "debug".toList

/-- The options whose name begins with a text, or only the option with exactly that name. -/
def candidates (name : List Char) : List OptionName :=
  match all.filter (·.text = name) with
  | [] => all.filter (name.isPrefixOf ·.text)
  | exact => exact

end OptionName

/-- What one word of a command line is. -/
inductive Word where
  /-- An option, with the value that is attached to it. -/
  | option (name : OptionName) (attached : Option String)
  /-- A word that looks like an option but is none. -/
  | unknown
  /-- An option whose letters cannot be taken apart. -/
  | malformed
  /-- The word `--`. -/
  | separator
  /-- Anything else. -/
  | value (text : String)
  deriving DecidableEq, Repr

/-- Whether a text is digits, or digits with a point in front of the last of them. A line break
may follow. -/
def isUnsignedNumber (text : List Char) : Bool :=
  let text := if text.getLast? = some '\n' then text.dropLast else text
  let rest := text.dropWhile Digit.isDecimal
  match rest with
  | [] => !text.isEmpty
  | '.' :: places => !places.isEmpty && places.all Digit.isDecimal
  | _ => false

namespace Word

/-- A word with two dashes, given without them. It is ambiguous if several options begin like
it, and stands for a value if it has a blank and no option begins like it. -/
def readLong? (text : List Char) : Option Word :=
  let name := text.takeWhile (· != '=')
  let attached := match text.dropWhile (· != '=') with
    | [] => none
    | _ :: after => some (String.ofList after)
  match OptionName.candidates name with
  | [] => some (if text.contains ' ' then .value ("--" ++ String.ofList text) else .unknown)
  | [found] => some (.option found attached)
  | _ => none

/-- A word that begins with `-h`, given without it. The letter may be repeated, also behind an
equals sign, but no other letter may follow. -/
def readHelp (text : List Char) : Word :=
  let repeated := if text.head? = some '=' then text.tail else text
  if text != ['='] && repeated.all (· = 'h') then .option .help none else .malformed

/-- What a word is, unless it is ambiguous. -/
def read? (word : String) : Option Word :=
  match word.toList with
  | ['-', '-'] => some .separator
  | '-' :: '-' :: text => readLong? text
  | '-' :: 'h' :: text => some (readHelp text)
  | '-' :: c :: text =>
    if isUnsignedNumber (c :: text) || (c :: text).contains ' ' then some (.value word)
    else some .unknown
  | _ => some (.value word)

end Word

/-- The words of a command line, unless one of them is ambiguous. Behind the first separator all
words are values. -/
def words? : List String → Option (List Word)
  | [] => some []
  | word :: rest => do
    match ← Word.read? word with
    | .separator => some (.separator :: rest.map .value)
    | w => return w :: (← words? rest)

/-- An option, or another word that is no value, with the values that follow it. -/
structure Phrase where
  head : Word
  values : List String
  deriving DecidableEq, Repr

/-- The words of a command line as the values at its start and the phrases after them. -/
def group : List Word → List String × List Phrase
  | [] => ([], [])
  | w :: rest =>
    let (values, phrases) := group rest
    match w with
    | .value text => (text :: values, phrases)
    | head => ([], ⟨head, values⟩ :: phrases)

example : Word.read? "--st=3" = some (.option .steps (some "3")) := by decide +kernel

example : Word.read? "--s" = none := by decide +kernel

example : Word.read? "-.5" = some (.value "-.5") := by decide +kernel

example : Word.read? "-h=hh" = some (.option .help none) := by decide +kernel

example : Word.read? "-hx" = some .malformed := by decide +kernel

end Chip8.CommandLine
