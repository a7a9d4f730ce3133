import Chip8.Proofs.Coupling
import Chip8.Proofs.Runs

/-!
# Machines that a program cannot tell apart

Two machines are `Alike` if they differ at most in their timers and in what a debugger keeps. An
operation that `Respects` this has the same outcome on both and leaves them alike. Every
instruction does, but for the one that reads the delay timer; so does a step.
-/

namespace Chip8.Machine

/-- Equal but for the timers, the breakpoints, the trace and the last fault. -/
structure Alike (m n : Machine) : Prop where
  config : m.config = n.config
  registers : m.registers = n.registers
  memory : m.memory = n.memory
  stack : m.stack = n.stack
  screen : m.screen = n.screen
  keypad : m.keypad = n.keypad
  random : m.random = n.random

theorem Alike.refl (m : Machine) : Alike m m :=
  ⟨rfl, rfl, rfl, rfl, rfl, rfl, rfl⟩

/-- The same outcome on machines that stay alike. -/
inductive Agree {α : Type} :
    EStateM.Result Failure Machine α → EStateM.Result Failure Machine α → Prop where
  | ok (x : α) {m n : Machine} (alike : Alike m n) : Agree (.ok x m) (.ok x n)
  | error (e : Failure) {m n : Machine} (alike : Alike m n) : Agree (.error e m) (.error e n)

theorem Agree.ok_or_error {α : Type} {r r' : EStateM.Result Failure Machine α}
    (h : Agree r r') :
    (∃ x m n, r = .ok x m ∧ r' = .ok x n ∧ Alike m n) ∨
      ∃ e m n, r = .error e m ∧ r' = .error e n ∧ Alike m n := by
  cases h with
  | ok x h => exact .inl ⟨x, _, _, rfl, rfl, h⟩
  | error e h => exact .inr ⟨e, _, _, rfl, rfl, h⟩

theorem Agree.of_sameOutcome {α : Type} {r r' : EStateM.Result Failure Machine α}
    (h : SameOutcome Alike r r') : Agree r r' := by
  rcases h with ⟨x, m, n, rfl, rfl, h⟩ | ⟨e, m, n, rfl, rfl, h⟩
  · exact .ok x h
  · exact .error e h

def Respects {α : Type} (a : Action α) : Prop :=
  ∀ m n, Alike m n → Agree (a m) (a n)

theorem coupled_alike : Coupled (· ≠ .readDelay) Alike where
  config h := h.config.symm
  registers h := h.registers.symm
  stack h := h.stack.symm
  screen h := h.screen.symm
  random h := h.random.symm
  keypad _ := fun h => h.keypad.symm
  delay h := absurd rfl h
  readCell _ := .readCell_of_eq fun h => h.memory.symm
  writeCell _ := .writeCell_of_eq (fun h => h.memory.symm) fun h _ => { h with memory := rfl }
  setRegisters h _ := { h with registers := rfl }
  setStack h _ := { h with stack := rfl }
  setScreen h _ := { h with screen := rfl }
  setRandom h _ := { h with random := rfl }
  mapTimers h _ := { h with }

theorem Respects.execute {i : Instr} (hi : ¬ i.ReadsTimer) : Respects (execute i) := fun m n h =>
  .of_sameOutcome (coupled_alike.execute (fun _ hp => Instr.ne_readDelay_of_mem hi hp) m n h)

/-! ## Steps -/

section

variable {m n : Machine}

theorem Alike.fetched (h : Alike m n) : m.fetched = n.fetched := by
  unfold Machine.fetched
  rw [h.memory, h.registers]

theorem Alike.launched (h : Alike m n) (i : Instr) : Alike (m.launched i) (n.launched i) := by
  refine { h with registers := ?_ }
  unfold Machine.launched
  rw [h.registers]

/-- A tick cannot be told. -/
theorem Alike.ticked {cadence : Int} {done : Nat} (h : Alike m n) :
    Alike (ticked cadence done m) n := by
  unfold Machine.ticked
  split
  · exact { h with }
  · exact h

theorem step_agree (h : Alike m n) (hi : ∀ i, m.fetched = .ok i → ¬ i.ReadsTimer) :
    Agree (step m) (step n) := by
  refine .of_sameOutcome (coupled_alike.step h h.fetched.symm fun i hf => ?_)
  exact (Respects.execute (hi i hf) _ _ (h.launched i)).ok_or_error

end

end Chip8.Machine
