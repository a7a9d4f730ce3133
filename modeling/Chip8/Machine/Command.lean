import Chip8.Machine.Run

/-!
# Commands

Everything that can be done to a machine from outside, as data, so that a
session is a list of commands. `perform` carries one out and replies; the
session goes on after a failure, with whatever state the command left.
-/

namespace Chip8

inductive Command where
  | step
  | run (budget : Int) (cadence : Option Int)
  | execute (entry : Entry)
  | load (image : List UInt8) (base : Option Int)
  | press (key : Option Key)
  | release
  | tick
  | boot
  | reset
  | poke (address value : Int)
  | setRegister (x value : Int)
  | setIndex (value : Int)
  | setCounter (value : Int)
  | push (address : Int)
  | pop
  | setDelay (value : Int)
  | setSound (value : Int)
  | addBreakpoint (address : Int)
  | removeBreakpoint (address : Int)
  | setTracing (on : Bool)
  | clearTrace
  | draw (row col : Int) (sprite : List Int)
  | clearScreen
  deriving DecidableEq, Repr

inductive Reply where
  | done
  | ran (i : Instr)
  | stopped (reason : StopReason) (fault : Option Fault)
  | popped (address : UInt16)
  | drawn (erased : Bool)
  deriving DecidableEq, Repr

namespace Machine

def perform : Command → Action Reply
  | .step => do return .ran (← step)
  | .run budget cadence => do
    let reason ← run budget cadence
    return .stopped reason (← get).lastFault
  | .execute entry => do executeEntry entry; return .done
  | .load image base => do load image base; return .done
  | .press key => do press key; return .done
  | .release => do release; return .done
  | .tick => do tick; return .done
  | .boot => do boot; return .done
  | .reset => do reset; return .done
  | .poke address value => do writeCell address value; return .done
  | .setRegister x value => do setRegister x value; return .done
  | .setIndex value => do setIndex value; return .done
  | .setCounter value => do setCounter value; return .done
  | .push address => do push address; return .done
  | .pop => do return .popped (← pop)
  | .setDelay value => do setDelay value; return .done
  | .setSound value => do setSound value; return .done
  | .addBreakpoint address => do addBreakpoint address; return .done
  | .removeBreakpoint address => do removeBreakpoint address; return .done
  | .setTracing on => do setTracing on; return .done
  | .clearTrace => do clearTrace; return .done
  | .draw row col sprite => do return .drawn (← draw row col sprite)
  | .clearScreen => do clearScreen; return .done

/-- The state that an action leaves, whether it failed or not. -/
def after {α : Type} (a : Action α) (m : Machine) : Machine :=
  match a m with
  | .ok _ m => m
  | .error _ m => m

/-- The state at the end of a session. -/
def session (m : Machine) (cs : List Command) : Machine :=
  cs.foldl (fun m c => after (perform c) m) m

theorem session_append (m : Machine) (cs ds : List Command) :
    m.session (cs ++ ds) = (m.session cs).session ds :=
  List.foldl_append

/-- Takes up to `n` steps and stops at the first that fails. -/
def walk : (n : Nat) → Machine → List Instr × Option Failure × Machine
  | 0, m => ([], none, m)
  | n + 1, m =>
    match step m with
    | .ok i m =>
      let (is, e, m) := walk n m
      (i :: is, e, m)
    | .error e m => ([], some e, m)

end Machine

end Chip8
