import Chip8.CommandLine.Channels
import Chip8.Machine.Journal

/-!
# The program

The headless runner: it boots a machine, loads a program image, runs it plainly
or against the clock, and prints the screen, the registers and why the run
stopped. The exit status is 0 for a run that ended well, 1 for one that a fault
stopped and 2 when no run took place.
-/

namespace Chip8.CommandLine

def versionText : String :=
  "chip8-vm 0.1.0\n"

/-! ## The report -/

def stopText (reason : StopReason) (m : Machine) : String :=
  "Stopped: " ++ reason.text ++
    (match m.lastFault with
      | none => ""
      | some f => " (" ++ f.message ++ ")")

def report (o : Options) (reason : StopReason) (m : Machine) : String :=
  m.screen.text o.on o.off ++ "\n" ++ m.registers.text ++ "\n" ++ stopText reason m ++ "\n" ++
    (if o.trace then m.traceText ++ "\n" else "")

def status (reason : StopReason) : UInt32 :=
  if reason.isClean then 0 else 1

/-- The column of the first pixel that has no text. -/
def missingPixel? (o : Options) (s : Screen) : Option Nat :=
  s.firstColumn? fun lit => decide ((if lit then Setting.on else .off) ∈ o.emptied)

/-! ## Running -/

/-- The seconds between two events of a rate. -/
def period (hz : Int) : Float :=
  1.0 / Float.ofInt hz

def periods (c : Config) : Periods Float where
  step := period c.cpuHz
  tick := period c.timerHz

/-- The least rate that rounds to infinity: halfway from the largest finite number to 2^1024. -/
def rateLimit : Int := (1 <<< 1024 - 1 <<< 970 : Nat)

/-- Ticks that one beat may have to make up for. -/
def tickLimit : Nat := 0x4000000000000000

variable {μ : Type → Type} [Monad μ]

def executePaced (host : Host μ) (ch : Channels) (o : Options) (m : Machine) :
    Program μ (EStateM.Result Failure Machine StopReason) := do
  if rateLimit ≤ m.config.cpuHz ∨ rateLimit ≤ m.config.timerHz then throw .rateTooHigh
  if .steps ∈ o.emptied then throw .countMissing
  let see (m : Machine) : μ Unit := (m.journal 1 (some (o.steps + 1))).forM (ch.tell host)
  let paced := Pacing.paced host.clock see (periods m.config) tickLimit o.steps m
  match ← ExceptT.lift paced with
  | some result => return result
  | none => throw .runaway

/-- The run that the options ask for. -/
def execute (host : Host μ) (ch : Channels) (o : Options) (m : Machine) :
    Program μ (EStateM.Result Failure Machine StopReason) := do
  if o.realtime then executePaced host ch o m
  else
    if .steps ∈ o.emptied then throw .countMissing
    ExceptT.lift ((m.journal o.steps none).forM (ch.tell host))
    return Machine.run o.steps none m

def finish (host : Host μ) (o : Options) (result : EStateM.Result Failure Machine StopReason) :
    Program μ UInt32 := do
  match result with
  | .error e _ => throw (.failure e)
  | .ok reason m =>
    if !o.quiet then
      if let some column := missingPixel? o m.screen then throw (.pixelMissing column)
      host.stdout (report o reason m)
    return status reason

/-- Loads the image that the options name, sets the machine up and runs it. -/
def runMachine (host : Host μ) (ch : Channels) (o : Options) (m : Machine) :
    Program μ UInt32 := do
  let rom := PathName.ofString o.rom
  Channels.checkPath rom
  match ← host.read rom with
  | .error (.refused e) =>
    ExceptT.lift (ch.tellError host ("Cannot read ROM " ++ o.rom ++ ": " ++ e.message))
    return 2
  | .error (.unencodable reason) => throw (.pathUnencodable reason)
  | .error .tooLarge => throw (.failure (.misuse .outOfMemory))
  | .ok image =>
    match Machine.load image none m with
    | .error e _ =>
      ExceptT.lift (ch.tellError host ("ROM does not fit in memory: " ++ e.message))
      return 2
    | .ok _ m =>
      ExceptT.lift (ch.tell host (Machine.loadNote image.length m.config.programStart))
      if .breakAt ∈ o.emptied then throw .addressMissing
      finish host o (← execute host ch o (m.session o.setup))

/-- A missing timer rate is not asked for if the other rate is refused without it. -/
def lacksRate (o : Options) : Bool :=
  .cpuHz ∈ o.emptied ∨ (.timerHz ∈ o.emptied ∧ 0 < o.cpuHz)

def runOptions (host : Host μ) (o : Options) : Program μ UInt32 := do
  let ch ← Channels.ofOptions host o
  if lacksRate o then throw .rateMissing
  let config := o.config (← host.entropy)
  match config.rejection? with
  | some e =>
    ExceptT.lift (ch.tellError host e.message)
    return 2
  | none =>
    if .seed ∈ o.emptied then throw .seedMissing
    match Machine.create host.room config with
    | .error e => throw (.failure e)
    | .ok m =>
      ExceptT.lift (ch.tell host m.bootNote)
      runMachine host ch o m

/-- The whole program: the arguments in, the exit status out. -/
def run (host : Host μ) (argv : List String) : Program μ UInt32 := do
  match parse argv with
  | .ok o => runOptions host o
  | .error .help =>
    host.help
    return 0
  | .error .version =>
    host.stdout versionText
    return 0
  | .error (.usage u) =>
    host.refuse u
    return 2

end Chip8.CommandLine
