import Chip8.Arith
import Chip8.CallStack
import Chip8.CommandLine.Arguments
import Chip8.CommandLine.Channels
import Chip8.CommandLine.Host
import Chip8.CommandLine.Options
import Chip8.CommandLine.Program
import Chip8.Config
import Chip8.Extent
import Chip8.Fault
import Chip8.Files.FileError
import Chip8.Files.PathName
import Chip8.Font
import Chip8.Instr.Basic
import Chip8.Instr.Entry
import Chip8.Instr.Mnemonic
import Chip8.Instr.Word
import Chip8.Key
import Chip8.Keypad
import Chip8.Machine.Basic
import Chip8.Machine.Command
import Chip8.Machine.Execute
import Chip8.Machine.Journal
import Chip8.Machine.Run
import Chip8.Memory
import Chip8.Memory.Change
import Chip8.Memory.Dump
import Chip8.Note
import Chip8.Pacing
import Chip8.Proofs.Action
import Chip8.Proofs.Atomicity
import Chip8.Proofs.Bytes
import Chip8.Proofs.Cells
import Chip8.Proofs.Closure
import Chip8.Proofs.Composition
import Chip8.Proofs.Drawing
import Chip8.Proofs.Failing
import Chip8.Proofs.InRange
import Chip8.Proofs.Operands
import Chip8.Proofs.Pacing
import Chip8.Proofs.Runs
import Chip8.Proofs.Session
import Chip8.Proofs.Simulation
import Chip8.Proofs.Step
import Chip8.Proofs.Transfer
import Chip8.Random
import Chip8.Registers
import Chip8.Screen
import Chip8.Text.Blank
import Chip8.Text.Column
import Chip8.Text.Digit
import Chip8.Text.Hex
import Chip8.Text.Numeral
import Chip8.Text.Printable
import Chip8.Text.Quoted
import Chip8.Timers
import Chip8.Main
import Chip8.Proofs.Encoding
import Chip8.Proofs.Decoding
import Chip8.Proofs.Debugging
import Chip8.Proofs.Stopping
import Chip8.Proofs.Reset
import Chip8.Proofs.Control
import Chip8.Proofs.Calls
import Chip8.Proofs.Containment
import Chip8.Proofs.Representation
import Chip8.Proofs.Schedules
import Chip8.Proofs.Parts
import Chip8.Proofs.Splitting
import Chip8.Proofs.Framing
import Chip8.Proofs.Locality
import Chip8.Proofs.Assembly
import Chip8.Proofs.Stores
import Chip8.Proofs.Visits
import Chip8.Proofs.Rolls
import Chip8.Proofs.Writes
import Chip8.Proofs.Glyphs
import Chip8.Proofs.Numbers
import Chip8.Proofs.Mnemonics
import Chip8.Proofs.Trace
import Chip8.Proofs.Flags
import Chip8.Proofs.Collisions
import Chip8.CallStack.Slots
import Chip8.Proofs.Stacks
import Chip8.Proofs.Tracing
import Chip8.Proofs.Stages
import Chip8.Proofs.Invocation
import Chip8.Proofs.Cadence
import Chip8.Proofs.Saving
import Chip8.Proofs.Strokes
import Chip8.Proofs.Repetition
import Chip8.Proofs.Keys
import Chip8.Proofs.Skips
import Chip8.Proofs.Waiting
import Chip8.Proofs.Views
import Chip8.Proofs.Changes
import Chip8.Proofs.Numerals
import Chip8.Proofs.Dumps
import Chip8.Proofs.Deadlines
