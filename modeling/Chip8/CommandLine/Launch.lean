import Chip8.CommandLine.Files
import Chip8.CommandLine.Options
import Chip8.Listing
import Chip8.Machine.Dump
import Chip8.Machine.Load
import Chip8.Machine.Run
import Chip8.Screen.Render

/-!
# Launching a program

What the command line tool does: it reads its options and a program, and prints a listing or runs
the program, reports on it and prints the screen.

  * `listingText` : the listing of a program,
  * `prepare`     : what comes before a run,
  * `conclude`    : the report on a run that has ended,
  * `launch`      : all of it in a given `World`, where time stands still and files do not change.
-/

namespace Chip8.CommandLine

/-- The lines of a text, each with a line break behind it. -/
def unlines (lines : List String) : String := String.join (lines.map (· ++ "\n"))

/-- The listing of a program, which begins at the usual place in memory. -/
def listingText (image : Array Byte) : String :=
  unlines ((listing ({} : Config).programStart image.toList).map Row.line)

/-- Why the seconds to wait between two steps cannot be waited, if they cannot. Waiting no time
at all is no wait. -/
def pauseFault? (seconds : Float) : Option Fault :=
  let nanoseconds := seconds * 1e9
  if seconds == 0.0 then none
  else if seconds.isNaN then some .badPause
  else if nanoseconds < -9223372036854775808.0 || 9223372036854775808.0 ≤ nanoseconds then
    some .pauseTooLong
  else if seconds < 0.0 then some .badPause
  else none

namespace Options

/-- The configuration of the machine. -/
def config (o : Options) : Config := { trace := o.trace }

/-- Whether a message appears in the log: details only if they are asked for. -/
def shows (o : Options) (m : Message) : Bool := m.level != .debug || o.debug || o.trace

/-- What an event adds to the log. -/
def logLine? (o : Options) : Event → Option String
  | .logged m => if o.shows m then some m.line else none
  | .beeped => some Message.beep.line
  | _ => none

/-- The log of a sequence of events. -/
def log (o : Options) (events : Array Event) : String :=
  unlines (events.toList.filterMap o.logLine?)

end Options

/-- Load a program, report that it is about to run and tell for how many steps. -/
def prepare (o : Options) (image : Array Byte) : Effect Int := do
  Effect.load o.config image
  match o.steps with
  | some steps =>
    Effect.emit (.logged (.ready o.program image.size steps))
    return steps
  | none => throw .noStepCount

/-- What a launched program ends with. -/
structure Report where
  /-- The exit status. -/
  status : Nat
  /-- What is printed. -/
  output : String
  /-- What is reported at the end. -/
  messages : List Message
  deriving DecidableEq, Repr

/-- The report on a run, given its result, its machine and the clock reading at its end. A trap
is reported; other faults are passed on. -/
def conclude (o : Options) (now : Float) (result : Except Fault Nat) (m : Machine) :
    Except Fault Report := do
  let (status, verdict) ← match result with
    | .ok count => pure (0, Message.executed count)
    | .error (.trap t) => pure (1, Message.stopped t)
    | .error f => throw f
  let dump ← m.dump o.config now
  let output ← if o.screen then
      (· ++ "\n") <$> m.screen.render o.config.display "#" "."
    else
      pure ""
  return ⟨status, output, [verdict, .final dump]⟩

/-- The world in which a program is launched. -/
structure World where
  /-- Where relative paths start. -/
  place : Place
  /-- The clock reading, at all times. -/
  now : Float
  /-- The random numbers in the order in which they are drawn. -/
  random : Nat → Int

/-- What a launch leads to. -/
inductive Launch where
  /-- Only the usage was explained. -/
  | usage (u : Usage)
  /-- The program's file cannot be read. -/
  | unreadable (e : FileError)
  /-- Something went wrong that the tool does not report. -/
  | faulted (f : Fault)
  /-- The tool ended by itself. -/
  | ended (status : Nat) (output log : String)
  deriving DecidableEq, Repr

/-- The host that a launched program sees. -/
def World.host (w : World) (o : Options) : Host where
  pressed := fun k => o.press.contains k
  now := fun _ => w.now
  random := w.random

/-- Run a program in a world. -/
def execute (w : World) (o : Options) (image : Array Byte) : Launch :=
  let loaded := (prepare o image).outcome (Machine.initial o.config w.now)
  match loaded.result with
  | .error f => .faulted f
  | .ok steps =>
    let out := loaded.machine.run o.config (w.host o) (pauseFault? o.sleep) steps
    match conclude o w.now out.result out.machine with
    | .error f => .faulted f
    | .ok r =>
      .ended r.status r.output
        (o.log (loaded.events ++ out.events ++ (r.messages.map Event.logged).toArray))

/-- Launch the tool with the words of a command line. -/
def launch (w : World) (args : List String) : Launch :=
  match Options.read args with
  | .error u => .usage u
  | .ok o =>
    match w.place.read o.program with
    | .error e => .unreadable e
    | .ok image => if o.list then .ended 0 (listingText image) "" else execute w o image

end Chip8.CommandLine
