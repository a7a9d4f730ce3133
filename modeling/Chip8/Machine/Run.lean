import Chip8.Machine.Execute

/-!
# Running

`step` fetches, decodes and executes one instruction; a fault puts the counter
back on it. `run` takes steps until its budget is used up, a breakpoint is
reached (the address it starts from does not count) or a fault occurs, and
ticks the timers whenever the cadence divides the number of steps taken.
`turn` is one step of a run with its tick.
-/

namespace Chip8

inductive StopReason where
  | timeout
  | breakpoint
  | illegal
  | error
  deriving DecidableEq, Repr

namespace StopReason

def text : StopReason → String
  | timeout => "TIMEOUT"
  | breakpoint => "BREAK"
  | illegal => "ILLEGAL"
  | error => "ERROR"

/-- Words that are no instruction are told apart from all other faults. -/
def ofFault (f : Fault) : StopReason :=
  if f.family = .opcode then illegal else error

/-- The program itself did nothing wrong. -/
def isClean : StopReason → Bool
  | timeout => true
  | breakpoint => true
  | illegal => false
  | error => false

end StopReason

namespace Machine

/-- The instruction at the counter. -/
def fetch : Action Instr := do
  let pc ← counter
  let high ← readCell pc.toNat
  let low ← readCell (pc.toNat + 1)
  match Instr.decodeBytes high.toNat low.toNat (← get).memory.size with
  | .ok i => pure i
  | .error e => throw e

/-- Writes the instruction that is about to run into the trace, if that is on. -/
def record (i : Instr) : Action Unit :=
  modify fun m => if m.tracing then { m with trace := m.trace.push ⟨m.registers, i⟩ } else m

/-- Executes with the counter past the instruction, and puts it back after a fault. -/
def executeFrom (pc : UInt16) (i : Instr) : Action Unit := fun m =>
  match (do setCounter (pc.toNat + 2); execute i : Action Unit) m with
  | .ok _ m => .ok () m
  | .error (.fault f) m => .error (.fault f) { m with registers := m.registers.setCounter pc.toNat }
  | .error (.misuse u) m => .error (.misuse u) m

def step : Action Instr := do
  let pc ← counter
  let i ← fetch
  record i
  executeFrom pc i
  return i

/-- A step and the tick due after it, `done` steps into a run. -/
def turn (cadence : Int) (done : Nat) : Action Unit := do
  let _ ← step
  if cadence = 0 then misuse .zeroCadence
  else if ((done : Int) + 1) % cadence = 0 then tick

def runFrom (cadence : Int) : (budget done : Nat) → Action StopReason
  | 0, _ => pure .timeout
  | n + 1, done => fun m =>
    if done ≠ 0 ∧ m.atBreakpoint then .ok .breakpoint m
    else
      match turn cadence done m with
      | .ok _ m => runFrom cadence n (done + 1) m
      | .error (.fault f) m => .ok (.ofFault f) { m with lastFault := some f }
      | .error (.misuse u) m => .error (.misuse u) m

/-- The cadence is the one of the configuration unless another is given. -/
def run (budget : Int) (cadence? : Option Int) : Action StopReason := do
  modify fun m => { m with lastFault := none }
  runFrom (cadence?.getD (← get).config.cadence) budget.toNat 0

end Machine

end Chip8
