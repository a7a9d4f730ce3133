import Chip8.CallStack
import Chip8.Config
import Chip8.Instr.Word
import Chip8.Instr.Mnemonic
import Chip8.Keypad
import Chip8.Memory
import Chip8.Random
import Chip8.Registers
import Chip8.Screen
import Chip8.Text.Column
import Chip8.Timers

/-!
# The machine

A `Machine` is the state of every component together with what a debugger keeps:
breakpoints, the trace and the fault that stopped the last run. An `Action`
changes a machine and may fail; a failed action keeps what it has done so far.
`create` builds the machine of a configuration on a host and boots it. `reset` boots
again and forgets everything but memory outside the font and the trace switch.
-/

namespace Chip8

/-- An instruction that was about to run, with the registers before it. -/
structure TraceEntry where
  registers : Registers
  instr : Instr
  deriving DecidableEq, Repr

structure Machine where
  config : Config
  registers : Registers
  memory : Memory
  stack : CallStack
  timers : Timers
  screen : Screen
  keypad : Keypad
  random : Random
  /-- Each address once. -/
  breakpoints : List Int
  tracing : Bool
  trace : Array TraceEntry
  lastFault : Option Fault
  deriving DecidableEq, Repr

abbrev Action := EStateM Failure Machine

namespace Machine

/-! ## Component operations as actions -/

def fault {α : Type} (f : Fault) : Action α :=
  throw (.fault f)

def misuse {α : Type} (u : Misuse) : Action α :=
  throw (.misuse u)

def register (x : Int) : Action UInt8 := fun m =>
  match m.registers.read x with
  | .ok b => .ok b m
  | .error u => .error (.misuse u) m

def setRegister (x value : Int) : Action Unit := fun m =>
  match m.registers.write x value with
  | .ok r => .ok () { m with registers := r }
  | .error u => .error (.misuse u) m

def setFlag (value : Int) : Action Unit :=
  modify fun m => { m with registers := m.registers.setFlag value }

def index : Action UInt16 := do
  return (← get).registers.i

def setIndex (value : Int) : Action Unit :=
  modify fun m => { m with registers := m.registers.setIndex value }

def counter : Action UInt16 := do
  return (← get).registers.pc

def setCounter (value : Int) : Action Unit :=
  modify fun m => { m with registers := m.registers.setCounter value }

def readCell (a : Int) : Action UInt8 := fun m =>
  match m.memory.read8 a with
  | .ok b => .ok b m
  | .error f => .error (.fault f) m

def writeCell (a value : Int) : Action Unit := fun m =>
  match m.memory.write8 a value with
  | .ok mem => .ok () { m with memory := mem }
  | .error f => .error (.fault f) m

/-- Copies an image into memory, at the program start unless another base is given. -/
def load (image : List UInt8) (base? : Option Int) : Action Unit := fun m =>
  match m.memory.load image (base?.getD m.config.programStart) with
  | .ok mem => .ok () { m with memory := mem }
  | .error f => .error (.fault f) m

def push (address : Int) : Action Unit := fun m =>
  match m.stack.push address with
  | .ok s => .ok () { m with stack := s }
  | .error f => .error (.fault f) m

def pop : Action UInt16 := fun m =>
  match m.stack.pop with
  | .ok (a, s) => .ok a { m with stack := s }
  | .error f => .error (.fault f) m

def setDelay (value : Int) : Action Unit :=
  modify fun m => { m with timers := m.timers.setDelay value }

def setSound (value : Int) : Action Unit :=
  modify fun m => { m with timers := m.timers.setSound value }

def tick : Action Unit :=
  modify fun m => { m with timers := m.timers.tick }

def clearScreen : Action Unit :=
  modify fun m => { m with screen := m.screen.clear }

/-- Draws on the screen; also tells whether a lit pixel went dark. -/
def draw (row col : Int) (sprite : List Int) : Action Bool := fun m =>
  match m.screen.draw row col sprite with
  | .ok (s, erased) => .ok erased { m with screen := s }
  | .error u => .error (.misuse u) m

/-- The number of the held key. -/
def heldKey : Action (Option UInt8) := fun m =>
  match m.keypad.nibble with
  | .ok k => .ok k m
  | .error f => .error (.fault f) m

def press (key : Option Key) : Action Unit :=
  modify fun m => { m with keypad := m.keypad.press key }

def release : Action Unit :=
  modify fun m => { m with keypad := m.keypad.release }

def randomByte : Action UInt8 := fun m =>
  let (b, g) := m.random.byte
  .ok b { m with random := g }

/-! ## Debugging -/

def addBreakpoint (a : Int) : Action Unit :=
  modify fun m => { m with breakpoints := m.breakpoints.insert a }

def removeBreakpoint (a : Int) : Action Unit :=
  modify fun m => { m with breakpoints := m.breakpoints.filter (· ≠ a) }

def atBreakpoint (m : Machine) : Bool :=
  decide ((m.registers.pc.toNat : Int) ∈ m.breakpoints)

def setTracing (on : Bool) : Action Unit :=
  modify fun m => { m with tracing := on }

def clearTrace : Action Unit :=
  modify fun m => { m with trace := #[] }

/-! ## Starting -/

/-- The font into memory, every other component as new, and the counter at the program start. -/
def boot : Action Unit := do
  load Font.bytes (some (← get).config.fontStart)
  modify fun m => { m with
    registers := Registers.cleared.setCounter m.config.programStart
    stack := m.stack.reset
    timers := Timers.stopped
    screen := m.screen.clear
    keypad := Keypad.idle }

/-- The random bytes of a configuration. One without a seed gets those of seed 0: whoever has
entropy to offer puts it into the configuration. -/
def randomFor (c : Config) : Random :=
  .seeded (c.seed.getD 0)

def reset : Action Unit := do
  boot
  modify fun m => { m with
    random := randomFor m.config
    breakpoints := []
    trace := #[]
    lastFault := none }

/-- A machine that has not been booted. -/
def unbooted (c : Config) (memory : Memory) (stack : CallStack) (screen : Screen) : Machine where
  config := c
  registers := .cleared
  memory := memory
  stack := stack
  timers := .stopped
  screen := screen
  keypad := .idle
  random := randomFor c
  breakpoints := []
  tracing := false
  trace := #[]
  lastFault := none

/-- The parts of a machine that take room. -/
def parts (room : Room) (c : Config) : Except Misuse (Memory × CallStack × Screen) := do
  let memory ← Memory.create room c.memorySize
  let stack ← CallStack.create room c.stackDepth
  let screen ← Screen.create room c.displayWidth c.displayHeight
  return (memory, stack, screen)

def create (room : Room) (c : Config) : Except Failure Machine :=
  match parts room c with
  | .error u => .error (.misuse u)
  | .ok (memory, stack, screen) =>
    match boot (unbooted c memory stack screen) with
    | .ok _ m => .ok m
    | .error e _ => .error e

end Machine

/-! ## Trace text -/

namespace TraceEntry

/-- Columns of a mnemonic in a trace line. -/
def mnemonicColumns : Nat := 16

def line (e : TraceEntry) : String :=
  "$" ++ Hex.padded 3 e.registers.pc.toNat ++ ": " ++
    Column.padRight mnemonicColumns e.instr.mnemonic ++ " " ++ e.registers.text

end TraceEntry

def Machine.traceText (m : Machine) : String :=
  "\n".intercalate (m.trace.toList.map TraceEntry.line)

end Chip8
