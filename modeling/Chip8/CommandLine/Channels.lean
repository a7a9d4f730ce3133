import Chip8.CommandLine.Host

/-!
# Where notes go

The console shows the notes from a level on; a log file, if there is one, takes
every note, with the time. `openLog` makes the directories above the log file and
the file itself, so that a log file that cannot be written is found before
anything is done.
-/

namespace Chip8.CommandLine

structure Channels where
  consoleLevel : Note.Level
  log? : Option PathName

namespace Channels

variable {μ : Type → Type} [Monad μ]

/-- A directory that could not be made is no error if it is there. -/
def settle (host : Host μ) (p : PathName) (e : FileError) : Program μ Unit := do
  if ← host.isDirectory p then return else throw (.file e)

/-- Makes a directory, given by its components from the last to the first, and those above it. -/
def makeDirectories (host : Host μ) (root : String) : (upwards : List String) → Program μ Unit
  | [] => do
    match ← host.makeDirectory ⟨root, []⟩ with
    | .ok _ => return
    | .error e => settle host ⟨root, []⟩ e
  | c :: above => do
    let p : PathName := ⟨root, (c :: above).reverse⟩
    match ← host.makeDirectory p with
    | .ok _ => return
    | .error ⟨.notFound, _⟩ =>
      makeDirectories host root above
      match ← host.makeDirectory p with
      | .ok _ => return
      | .error e => settle host p e
    | .error e => settle host p e

def checkPath (p : PathName) : Program μ Unit := do
  if p.hasTerminator then throw .pathTerminated

/-- Makes sure of a log file and returns its name from the root. -/
def openLog (host : Host μ) (p : PathName) : Program μ PathName := do
  checkPath p.parent
  makeDirectories host p.root p.parent.parts.reverse
  checkPath p
  let log := p.absolute (← host.workingDirectory)
  match ← host.append log "" with
  | .ok _ => return log
  | .error e => throw (.file e)

def ofOptions (host : Host μ) (o : Options) : Program μ Channels := do
  match o.logPath? with
  | none => return ⟨o.consoleLevel, none⟩
  | some p => return ⟨o.consoleLevel, some (← openLog host p)⟩

/-- Sends a note to the console and the log file, as far as it belongs there. -/
def tell (host : Host μ) (ch : Channels) (n : Note) : μ Unit := do
  if n.reaches ch.consoleLevel then host.stderr n.consoleLine
  match ch.log? with
  | none => return
  | some log =>
    let stamp ← host.timeStamp
    let _ ← host.append log (stamp ++ " - " ++ n.fileLine)
    return

def tellError (host : Host μ) (ch : Channels) (text : String) : μ Unit :=
  ch.tell host ⟨.error, .program, text⟩

end Channels

end Chip8.CommandLine
