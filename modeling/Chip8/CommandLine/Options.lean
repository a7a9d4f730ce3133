import Chip8.Files.PathName
import Chip8.Machine.Command
import Chip8.Note

/-!
# Options

What a command line asks for: the program image, the size and pace of the run,
what the machine is set up with, and how much is told about it. A setting may
also be given without a value. That is an error only where the value is needed;
`emptied` remembers it until then.
-/

namespace Chip8.CommandLine

/-- Options that take a value. -/
inductive Setting where
  | steps
  | cpuHz
  | timerHz
  | seed
  | key
  | breakAt
  | on
  | off
  | logFile
  deriving DecidableEq, Repr

structure Options where
  rom : String
  steps : Int := 1000
  cpuHz : Int := ({} : Config).cpuHz
  timerHz : Int := ({} : Config).timerHz
  seed : Option Int := none
  key : Option Key := none
  breakpoints : List Int := []
  trace : Bool := false
  realtime : Bool := false
  on : String := "#"
  off : String := "."
  verbosity : Nat := 0
  quiet : Bool := false
  logFile : Option String := none
  /-- The settings that were given without the value they need. -/
  emptied : List Setting := []
  deriving DecidableEq, Repr

namespace Options

/-- The settings of the machine; the entropy is used when no seed is given. -/
def config (o : Options) (entropy : Int) : Config where
  cpuHz := o.cpuHz
  timerHz := o.timerHz
  seed := some (o.seed.getD entropy)

/-- What is done to the machine between loading and running. -/
def setup (o : Options) : List Command :=
  o.key.toList.map (fun k => .press (some k)) ++ o.breakpoints.map .addBreakpoint ++
    [.setTracing o.trace]

/-- The least level that the console shows. -/
def consoleLevel (o : Options) : Note.Level :=
  if o.quiet then .error
  else match o.verbosity with
    | 0 => .warning
    | 1 => .info
    | _ => .debug

/-- An empty name is no log file. -/
def logPath? (o : Options) : Option PathName :=
  (o.logFile.filter (· ≠ "")).map .ofString

/--
A setting without a value. A key that is not named can be held all the same, and
a log file that is not named is none.
-/
def empty (o : Options) (s : Setting) : Options :=
  match s with
  | .key => { o with key := some .unnamed }
  | .logFile => { o with logFile := none }
  | s => { o with emptied := s :: o.emptied }

/-- A later value makes up for a missing one, except that every breakpoint counts. -/
def fill (o : Options) (s : Setting) : Options :=
  if s = .breakAt then o else { o with emptied := o.emptied.filter (· ≠ s) }

end Options

end Chip8.CommandLine
