import Chip8.Proofs.Overlay

/-!
# Instructions and the debugger

A machine carries what a debugger keeps with it. No instruction looks at that or changes it
(`Detached.execute`), and a step only adds to the trace. So the last fault, which only runs write,
can be exchanged before a step or after it (`step_blame`).
-/

namespace Chip8

/-- What a debugger keeps with a machine. -/
structure Debugger where
  breakpoints : List Int
  tracing : Bool
  trace : Array TraceEntry
  lastFault : Option Fault

namespace Machine

def debugger (m : Machine) : Debugger :=
  ⟨m.breakpoints, m.tracing, m.trace, m.lastFault⟩

def attach (d : Debugger) (m : Machine) : Machine :=
  { m with
    breakpoints := d.breakpoints
    tracing := d.tracing
    trace := d.trace
    lastFault := d.lastFault }

/-- An action that neither sees nor changes what the debugger keeps. -/
def Detached {α : Type} (a : Action α) : Prop :=
  ∀ m d, a (m.attach d) = onState (attach d) (a m)

theorem overlay_attach (d : Debugger) : Overlay (fun _ => True) (attach d) where
  config _ := rfl
  registers _ := rfl
  memory _ := rfl
  stack _ := rfl
  timers _ := rfl
  screen _ := rfl
  keypad _ _ := rfl
  random _ := rfl
  setRegisters _ _ := rfl
  setMemory _ _ := rfl
  setStack _ _ := rfl
  setTimers _ _ := rfl
  setScreen _ _ := rfl
  setRandom _ _ := rfl

theorem Detached.execute (i : Instr) : Detached (execute i) := fun m d =>
  (overlay_attach d).execute (fun _ _ => trivial) m

/-- An action that does not see the debugger leaves it as it was. -/
theorem Detached.debugger_after {α : Type} {a : Action α} (ha : Detached a) (m : Machine) :
    (after a m).debugger = m.debugger := by
  have h : a m = onState (attach m.debugger) (a m) := ha m m.debugger
  unfold after
  cases hr : a m with
  | ok x n =>
    rw [hr] at h
    have hn : n = n.attach m.debugger := (EStateM.Result.ok.inj h).2
    show n.debugger = m.debugger
    rw [hn]
    rfl
  | error e n =>
    rw [hr] at h
    have hn : n = n.attach m.debugger := (EStateM.Result.error.inj h).2
    show n.debugger = m.debugger
    rw [hn]
    rfl

/-! ## The last fault -/

/-- The same machine with `f` as its last fault. -/
def blame (f : Option Fault) (m : Machine) : Machine :=
  { m with lastFault := f }

theorem overlay_blame (f : Option Fault) : Overlay (fun _ => True) (blame f) where
  config _ := rfl
  registers _ := rfl
  memory _ := rfl
  stack _ := rfl
  timers _ := rfl
  screen _ := rfl
  keypad _ _ := rfl
  random _ := rfl
  setRegisters _ _ := rfl
  setMemory _ _ := rfl
  setStack _ _ := rfl
  setTimers _ _ := rfl
  setScreen _ _ := rfl
  setRandom _ _ := rfl

/-- A step does the same whatever fault there was last. -/
theorem step_blame (f : Option Fault) (m : Machine) :
    step (m.blame f) = onState (blame f) (step m) :=
  (overlay_blame f).step (fun _ _ => rfl) fun _ _ _ _ => trivial

end Machine

end Chip8
