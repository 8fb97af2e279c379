import Chip8.CommandLine.Launch

/-!
# The command line tool

Reads a program from a file and runs it with the real clock and real random numbers, reporting
events as they happen. Everything it decides is decided in `Chip8.CommandLine.Launch` and
`Chip8.Machine.Run`.
-/

namespace Chip8.CommandLine

/-- How the tool is called. -/
def usageText : String :=
  "usage: chip8 [-h] [--steps STEPS] [--press K [K ...]] [--sleep SLEEP] [--trace] [--list]\n"
    ++ "             [--screen] [--debug] program\n"

/-- Seconds since some moment in the past. -/
def clock : IO Float := do
  return (← IO.monoNanosNow).toFloat / 1e9

/-- Write what is to be reported of some events. -/
def report (o : Options) (events : Array Event) : IO Unit := do
  let err ← IO.getStderr
  err.putStr (o.log events)
  err.flush

/-- Take the turns of a run one by one, with at most `n` to go, and wait between them. -/
def play (o : Options) : Nat → Run → IO (Except Fault Nat × Machine)
  | 0, r => return (.ok r.retired, r.machine)
  | n + 1, r => do
    let input : Input := ⟨fun k => o.press.contains k, ← clock, ← IO.rand 0 255⟩
    match ({ r with events := #[] } : Run).turn o.config input (pauseFault? o.sleep) with
    | .more r =>
      report o r.events
      if 0.0 < o.sleep then
        IO.sleep (o.sleep * 1000.0).ceil.toUInt32
      play o n r
    | .stopped r =>
      report o r.events
      return (.ok r.retired, r.machine)
    | .faulted f r =>
      report o r.events
      return (.error f, r.machine)

/-- Report a fault that ends the tool. -/
def abort (f : Fault) : IO UInt32 := do
  (← IO.getStderr).putStrLn (f.message?.getD "the program cannot be run")
  return 1

/-- Run the program of a given image. -/
def perform (o : Options) (image : Array Byte) : IO UInt32 := do
  let loaded := (prepare o image).outcome (Machine.initial o.config (← clock))
  report o loaded.events
  match loaded.result with
  | .error f => abort f
  | .ok steps =>
    let (result, m) ← play o steps.toNat (Run.start loaded.machine)
    match conclude o (← clock) result m with
    | .error f => abort f
    | .ok r =>
      report o (r.messages.map Event.logged).toArray
      (← IO.getStdout).putStr r.output
      return r.status.toUInt32

end Chip8.CommandLine

open Chip8.CommandLine in
/-- The command line tool. -/
def main (args : List String) : IO UInt32 := do
  match Options.read args with
  | .error u =>
    match u with
    | .help => IO.print usageText
    | .wrong => IO.eprint usageText
    return u.status.toUInt32
  | .ok o =>
    let image := (← IO.FS.readBinFile o.program).data
    if o.list then
      IO.print (listingText image)
      return 0
    perform o image
