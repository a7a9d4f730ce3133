/-!
# Notes

A note is a line for the log: how important it is, who speaks, and what is
said. The console shows the level and the text; a log file names the speaker
as well.
-/

namespace Chip8

namespace Note

inductive Level where
  | debug
  | info
  | warning
  | error
  deriving DecidableEq, Repr

def Level.name : Level → String
  | debug => "DEBUG"
  | info => "INFO"
  | warning => "WARNING"
  | error => "ERROR"

def Level.rank : Level → Nat
  | debug => 0
  | info => 1
  | warning => 2
  | error => 3

inductive Speaker where
  | program
  | machine
  deriving DecidableEq, Repr

def Speaker.name : Speaker → String
  | program => "chip8_vm"
  | machine => "chip8_vm.emu"

end Note

structure Note where
  level : Note.Level
  speaker : Note.Speaker
  text : String
  deriving DecidableEq, Repr

namespace Note

/-- At least as important as a level. -/
def reaches (n : Note) (l : Level) : Bool :=
  decide (l.rank ≤ n.level.rank)

def consoleLine (n : Note) : String :=
  n.level.name ++ ": " ++ n.text ++ "\n"

/-- The line in a log file, after the time. -/
def fileLine (n : Note) : String :=
  n.speaker.name ++ " - " ++ n.level.name ++ " - " ++ n.text ++ "\n"

end Note

end Chip8
