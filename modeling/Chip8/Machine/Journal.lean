import Chip8.Machine.Run
import Chip8.Note

/-!
# The journal of a machine

What a machine says about its work: that it has booted, what was loaded, the
instructions it traces or ignores, and why a run stopped. `journal` takes the
notes of a run off its states, turn by turn, so that taking them cannot change
the run.
-/

namespace Chip8.Machine

def note (level : Note.Level) (text : String) : Note :=
  ⟨level, .machine, text⟩

def bootNote (m : Machine) : Note :=
  note .info ("Booted: font at $" ++ Hex.padded 3 m.config.fontStart ++ ", PC=$" ++
    Hex.padded 3 m.registers.pc.toNat)

def loadNote (count : Nat) (base : Int) : Note :=
  note .info (s!"Loaded {count} bytes at $" ++ Hex.padded 3 base)

def stopNote (m : Machine) (f : Fault) : Note :=
  note .warning ("Stopped at $" ++ Hex.padded 3 m.registers.pc.toNat ++ ": " ++ f.message)

/-- A system call is no more than noted. -/
def ignoreNotes : Instr → List Note
  | .addr .sys nnn => [note .debug ("Ignoring SYS $" ++ Hex.padded 3 nnn)]
  | _ => []

def traceNotes (m : Machine) (i : Instr) : List Note :=
  if m.tracing then [note .debug (TraceEntry.line ⟨m.registers, i⟩)] else []

/-- What is said about the instruction at the counter before it runs. -/
def stepNotes (m : Machine) : List Note :=
  match fetch m with
  | .ok i _ => m.traceNotes i ++ ignoreNotes i
  | .error _ _ => []

def breakNote (m : Machine) : Note :=
  note .info ("Breakpoint hit at $" ++ Hex.padded 3 m.registers.pc.toNat)

/-- The notes of a run after those already taken. -/
def journalFrom (cadence : Int) : (budget done : Nat) → Machine → Array Note → Array Note
  | 0, _, _, notes => notes
  | n + 1, done, m, notes =>
    if done ≠ 0 ∧ m.atBreakpoint then notes.push m.breakNote
    else
      let notes := notes ++ m.stepNotes
      match turn cadence done m with
      | .ok _ m => journalFrom cadence n (done + 1) m notes
      | .error (.fault f) m => notes.push (m.stopNote f)
      | .error (.misuse _) _ => notes

def journal (m : Machine) (budget : Int) (cadence? : Option Int) : List Note :=
  (journalFrom (cadence?.getD m.config.cadence) budget.toNat 0 m #[]).toList

end Chip8.Machine
