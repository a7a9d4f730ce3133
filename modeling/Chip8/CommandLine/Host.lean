import Chip8.CommandLine.Arguments
import Chip8.Files.FileError
import Chip8.Pacing

/-!
# Hosts

All that the program needs from outside, over any monad: room for a machine,
files, a clock, entropy, the output streams, and somebody to tell the user how it
is called. A program that cannot go on and has no exit status for it ends with an
`Abort`.
-/

namespace Chip8.CommandLine

/-- Why the bytes of a file are not to be had. -/
inductive Unread where
  /-- The system refuses to read it. -/
  | refused (e : FileError)
  /-- Its name has characters that names in the system cannot have. -/
  | unencodable (reason : String)
  /-- There is no room for its bytes. -/
  | tooLarge
  deriving DecidableEq, Repr

structure Host (μ : Type → Type) where
  room : Room
  read : PathName → μ (Except Unread (List UInt8))
  makeDirectory : PathName → μ (Except FileError Unit)
  isDirectory : PathName → μ Bool
  /-- Adds text to a file, which is made if it is not there. -/
  append : PathName → String → μ (Except FileError Unit)
  workingDirectory : μ PathName
  /-- The local time, as the log shows it. -/
  timeStamp : μ String
  /-- A seed for a run that names none. -/
  entropy : μ Int
  clock : Clock μ Float
  stdout : String → μ Unit
  stderr : String → μ Unit
  /-- Shows how the program is called. -/
  help : μ Unit
  /-- Shows why a command line is refused. -/
  refuse : Usage → μ Unit

inductive Abort where
  /-- The log file cannot be opened. -/
  | file (e : FileError)
  /-- A path that the system would see only the beginning of. -/
  | pathTerminated
  /-- A path that the system has no name for. -/
  | pathUnencodable (reason : String)
  | rateMissing
  | seedMissing
  | addressMissing
  | countMissing
  /-- The text of the pixel in a column of the screen. -/
  | pixelMissing (column : Nat)
  /-- A rate that rounds to infinity. -/
  | rateTooHigh
  | failure (e : Failure)
  /-- The clock runs away from a paced run. -/
  | runaway
  deriving DecidableEq, Repr

def Abort.message : Abort → String
  | file e => e.message
  | pathTerminated => "embedded null byte"
  | pathUnencodable reason => reason
  | rateMissing => "'<=' not supported between instances of 'list' and 'int'"
  | seedMissing =>
    "The only supported seed types are: None,\nint, float, str, bytes, and bytearray."
  | addressMissing => "unhashable type: 'list'"
  | countMissing => "'list' object cannot be interpreted as an integer"
  | pixelMissing column => s!"sequence item {column}: expected str instance, list found"
  | rateTooHigh => "int too large to convert to float"
  | failure e => e.message
  | runaway => "The clock has run away"

/-- A program over a host's monad. -/
abbrev Program (μ : Type → Type) :=
  ExceptT Abort μ

end Chip8.CommandLine
