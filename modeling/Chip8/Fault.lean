import Chip8.Key
import Chip8.Text.Hex

/-!
# Faults and misuse

A `Fault` is what a running program can do wrong: it leaves memory, over- or
underflows the call stack, meets a word that is no instruction, or asks for a
glyph or key that does not exist. Faults come in families; a machine that runs
on its own stops at every fault, and the family tells how. A `Misuse` is a call
from outside that breaks an operation's contract. `Failure` is either.
-/

namespace Chip8

inductive Fault where
  /-- `size` is the memory size, or 0 when it is not known. -/
  | addressOutOfBounds (address size : Int)
  /-- `address` is the value that was refused. -/
  | stackOverflow (address depth : Int)
  | stackUnderflow
  | invalidOpcode (word : Int)
  | invalidAddress (address : Int)
  | invalidSprite (digit : Int)
  | invalidKey (key : Key)
  deriving DecidableEq, Repr

namespace Fault

inductive Family where
  | memory
  | stack
  | opcode
  | display
  | input
  deriving DecidableEq, Repr

def family : Fault → Family
  | addressOutOfBounds _ _ => .memory
  | stackOverflow _ _ => .stack
  | stackUnderflow => .stack
  | invalidOpcode _ => .opcode
  | invalidAddress _ => .opcode
  | invalidSprite _ => .display
  | invalidKey _ => .input

def message : Fault → String
  | addressOutOfBounds a size =>
    "Address $" ++ Hex.padded 4 a ++ " out of bounds" ++
      (if size = 0 then "" else " (memory size $" ++ Hex.padded 4 size ++ ")")
  | stackOverflow a depth =>
    "Call stack overflow pushing $" ++ Hex.padded 3 a ++ " (depth " ++ toString depth ++ ")"
  | stackUnderflow => "Call stack underflow"
  | invalidOpcode w => "Invalid opcode $" ++ Hex.padded 4 w
  | invalidAddress a => "Invalid address operand $" ++ Hex.padded 3 a
  | invalidSprite d => "No built-in sprite for digit $" ++ Hex.padded 2 d
  | invalidKey k => "Invalid key " ++ k.shown ++ " (expected one of 0-9, a-f)"

end Fault

/-- A call that an operation's contract rules out. -/
inductive Misuse where
  /-- A register number outside -16 to 15 is read. -/
  | noSuchRegister
  /-- A register number outside -16 to 15 is written. -/
  | noSuchTarget
  /-- A register number that fits no word. -/
  | registerTooFar
  | spriteTooTall (rows : Nat)
  /-- A line that the screen does not have. -/
  | noSuchLine
  /-- A byte that a line of the screen does not have. -/
  | noSuchByte
  /-- A remainder by a side of the screen that is 0. -/
  | zeroSide
  /-- Timers are to tick every 0 instructions. -/
  | zeroCadence
  | wordTooWide (word : Int)
  | bytesTooWide (high low : Int)
  | operandTooWide (instruction field : String) (value : Int) (bits : Nat)
  | negativeSize
  /-- A size that fits no word. -/
  | sizeTooWide
  | outOfMemory
  | screenWidth (width : Int)
  | screenHeight (height : Int)
  deriving DecidableEq, Repr

def Misuse.message : Misuse → String
  | noSuchRegister => "list index out of range"
  | noSuchTarget => "list assignment index out of range"
  | registerTooFar => "cannot fit 'int' into an index-sized integer"
  | spriteTooTall rows => s!"Sprite is {rows} bytes, at most 15 allowed"
  | noSuchLine => "list index out of range"
  | noSuchByte => "bytearray index out of range"
  | zeroSide => "integer modulo by zero"
  | zeroCadence => "integer modulo by zero"
  | wordTooWide w => "Instruction word $" ++ Hex.padded 0 w ++ " is wider than 16 bits"
  | bytesTooWide h l =>
    "Instruction bytes must be 8-bit, got $" ++ Hex.padded 0 h ++ " $" ++ Hex.padded 0 l
  | operandTooWide i f v bits => s!"{i}.{f}={v} does not fit in {bits} bits"
  | negativeSize => "negative count"
  | sizeTooWide => "cannot fit 'int' into an index-sized integer"
  | outOfMemory => ""
  | screenWidth w => s!"Display width must be a positive multiple of 8, got {w}"
  | screenHeight h => s!"Display height must be positive, got {h}"

inductive Failure where
  | fault (f : Fault)
  | misuse (m : Misuse)
  deriving DecidableEq, Repr

def Failure.message : Failure → String
  | fault f => f.message
  | misuse m => m.message

end Chip8
