import Chip8.Proofs.Coupling
import Chip8.Proofs.Step

/-!
# Parts of a machine that are not looked at

`Overlay allowed f` says that `f` changes only what the allowed operations neither see nor change,
so that it does not matter whether `f` is applied before such an operation or after it. The same
goes for instructions (`Overlay.execute`) and, if the trace does not depend on it, for steps. What
the debugger keeps is never looked at; the keypad only by the operation that asks for the held key.
-/

namespace Chip8.Machine

variable {α : Type}

/-- The same outcome with another state. -/
def onState (f : Machine → Machine) :
    EStateM.Result Failure Machine α → EStateM.Result Failure Machine α
  | .ok x m => .ok x (f m)
  | .error e m => .error e (f m)

/-- It does not matter whether `f` is applied before or after `a`. -/
def Commutes (f : Machine → Machine) (a : Action α) : Prop :=
  ∀ m, a (f m) = onState f (a m)

/-- The components that operations work on are those of the machine below, wherever they are
written. -/
structure Overlay (allowed : Primitive → Prop) (f : Machine → Machine) : Prop where
  config : ∀ m, (f m).config = m.config
  registers : ∀ m, (f m).registers = m.registers
  memory : ∀ m, (f m).memory = m.memory
  stack : ∀ m, (f m).stack = m.stack
  timers : ∀ m, (f m).timers = m.timers
  screen : ∀ m, (f m).screen = m.screen
  keypad : allowed .heldKey → ∀ m, (f m).keypad = m.keypad
  random : ∀ m, (f m).random = m.random
  setRegisters : ∀ m r, f { m with registers := r } = { f m with registers := r }
  setMemory : ∀ m r, f { m with memory := r } = { f m with memory := r }
  setStack : ∀ m r, f { m with stack := r } = { f m with stack := r }
  setTimers : ∀ m r, f { m with timers := r } = { f m with timers := r }
  setScreen : ∀ m r, f { m with screen := r } = { f m with screen := r }
  setRandom : ∀ m r, f { m with random := r } = { f m with random := r }

theorem eq_onState {f : Machine → Machine} {r r' : EStateM.Result Failure Machine α}
    (h : SameOutcome (fun m n => n = f m) r r') : r' = onState f r := by
  rcases h with ⟨x, n, n', rfl, rfl, rfl⟩ | ⟨e, n, n', rfl, rfl, rfl⟩
  · rfl
  · rfl

namespace Overlay

variable {allowed : Primitive → Prop} {f : Machine → Machine} (hf : Overlay allowed f)

include hf

theorem coupled : Coupled allowed fun m n => n = f m where
  config h := h ▸ hf.config _
  registers h := h ▸ hf.registers _
  stack h := h ▸ hf.stack _
  screen h := h ▸ hf.screen _
  random h := h ▸ hf.random _
  keypad ha := fun h => h ▸ hf.keypad ha _
  delay _ := fun h => h ▸ congrArg Timers.delay (hf.timers _)
  readCell _ := .readCell_of_eq fun h => h ▸ hf.memory _
  writeCell _ := .writeCell_of_eq (fun h => h ▸ hf.memory _) fun h _ => h ▸ (hf.setMemory _ _).symm
  setRegisters h _ := h ▸ (hf.setRegisters _ _).symm
  setStack h _ := h ▸ (hf.setStack _ _).symm
  setScreen h _ := h ▸ (hf.setScreen _ _).symm
  setRandom h _ := h ▸ (hf.setRandom _ _).symm
  mapTimers {m n} h g := by
    rw [h, hf.timers m]
    exact (hf.setTimers m (g m.timers)).symm

theorem execute {i : Instr} (hi : ∀ p ∈ i.opcode.primitives, allowed p) :
    Commutes f (execute i) := fun m =>
  eq_onState (hf.coupled.execute hi m (f m) rfl)

theorem fetched (m : Machine) : (f m).fetched = m.fetched := by
  unfold Machine.fetched
  rw [hf.memory, hf.registers]

/-- The same step, if `f` does not matter to the trace either. -/
theorem step (hl : ∀ m i, (f m).launched i = f (m.launched i)) {m : Machine}
    (hi : ∀ i, m.fetched = .ok i → ∀ p ∈ i.opcode.primitives, allowed p) :
    step (f m) = onState f (step m) := by
  refine eq_onState (hf.coupled.step rfl (hf.fetched m) fun i hm => ?_)
  exact hf.coupled.execute (hi i hm) _ _ (hl m i)

end Overlay

end Chip8.Machine
