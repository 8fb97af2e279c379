import Chip8.Bitwise
import Chip8.Byte
import Chip8.Capacity
import Chip8.Cells
import Chip8.CommandLine.Arguments
import Chip8.CommandLine.Files
import Chip8.CommandLine.Launch
import Chip8.CommandLine.Options
import Chip8.Config
import Chip8.Count
import Chip8.Fault
import Chip8.Font
import Chip8.Host
import Chip8.Instruction.Arithmetic
import Chip8.Instruction.Basic
import Chip8.Instruction.Decode
import Chip8.Instruction.Mnemonic
import Chip8.Listing
import Chip8.Log
import Chip8.Machine.Basic
import Chip8.Machine.Dump
import Chip8.Machine.Effect
import Chip8.Machine.Execute
import Chip8.Machine.Load
import Chip8.Machine.Run
import Chip8.Machine.Step
import Chip8.Main
import Chip8.Screen.Basic
import Chip8.Screen.Bitmap
import Chip8.Screen.Render
import Chip8.Screen.Sprite
import Chip8.Text.Blank
import Chip8.Text.Decimal
import Chip8.Text.Digit
import Chip8.Text.Integer
import Chip8.Text.Numeral
import Chip8.Timer.Countdown
import Chip8.Timer.Delay
import Chip8.Timer.Floor
import Chip8.Proofs.Upholds
import Chip8.Proofs.Text.Numeral
import Chip8.Proofs.Instruction.Spelling
import Chip8.Proofs.Machine.Effect
import Chip8.Proofs.Machine.Frame
import Chip8.Proofs.Machine.Step
import Chip8.Proofs.Machine.Trap
import Chip8.Proofs.Machine.Accepted
import Chip8.Proofs.Machine.Calls
import Chip8.Proofs.Machine.Valid
import Chip8.Proofs.Machine.Loading
import Chip8.Proofs.Machine.Reachable
import Chip8.Proofs.Machine.Halted
import Chip8.Proofs.Machine.Stable
import Chip8.Proofs.Machine.Waiting
import Chip8.Proofs.Machine.EarlyStop
import Chip8.Proofs.Machine.Stores
import Chip8.Proofs.Machine.Retired
import Chip8.Proofs.Machine.Veil
import Chip8.Proofs.Machine.Restart
import Chip8.Proofs.Machine.Listed
import Chip8.Proofs.Screen.Painting
import Chip8.Proofs.Screen.Pixels
import Chip8.Proofs.Screen.Scrolling
import Chip8.Proofs.Screen.Refinement
import Chip8.Proofs.Screen.Twice
import Chip8.Proofs.Listing.Lossless
import Chip8.Proofs.Machine.Telling
import Chip8.Proofs.Machine.Traced
import Chip8.Proofs.Machine.Unasked
import Chip8.Proofs.Machine.Reports
import Chip8.Proofs.CommandLine.Typed
import Chip8.Proofs.CommandLine.Launched
import Chip8.Proofs.Screen.Order
import Chip8.Proofs.Timer.Refinement
import Chip8.Proofs.Machine.Drawing
import Chip8.Proofs.Machine.Pairs
import Chip8.Proofs.Machine.Blocks
import Chip8.Proofs.Machine.Addresses
import Chip8.Proofs.Machine.Flags
import Chip8.Proofs.Machine.Successor
import Chip8.Proofs.Instruction.Assembly
import Chip8.Proofs.Machine.Synonyms
import Chip8.Proofs.Machine.MemorySize
import Chip8.Proofs.Machine.TimerReads
