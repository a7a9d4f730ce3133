import Chip8.Proofs.Closure
import Chip8.Proofs.Step

/-!
# Runs taken apart

A turn of a run is a step and perhaps a tick (`turn_eq`, `runFrom_succ`), and a run of a single
instruction is that instruction (`run_one`). `issued` lists the instructions that a run goes
through.
-/

namespace Chip8.Machine

/-- The instructions that a run issues from a state; one that then fails is the last of them. -/
def issuedFrom (cadence : Int) : (budget done : Nat) → Machine → List Instr
  | 0, _, _ => []
  | n + 1, done, m =>
    if done ≠ 0 ∧ m.atBreakpoint then []
    else
      match m.fetched with
      | .error _ => []
      | .ok i =>
        match turn cadence done m with
        | .ok _ m => i :: issuedFrom cadence n (done + 1) m
        | .error _ _ => [i]

def issued (m : Machine) (budget : Int) (cadence? : Option Int) : List Instr :=
  issuedFrom (cadence?.getD m.config.cadence) budget.toNat 0 m

/-- The timers after a tick, if one is due. -/
def ticked (cadence : Int) (done : Nat) (m : Machine) : Machine :=
  if ((done : Int) + 1) % cadence = 0 then { m with timers := m.timers.tick } else m

theorem lastFault_ticked (cadence : Int) (done : Nat) (m : Machine) :
    (ticked cadence done m).lastFault = m.lastFault := by
  unfold ticked
  split <;> rfl

theorem turn_eq {cadence : Int} (hc : cadence ≠ 0) (done : Nat) (m : Machine) :
    turn cadence done m = match step m with
      | .ok _ n => .ok () (ticked cadence done n)
      | .error e n => .error e n := by
  unfold turn
  rw [bind_apply]
  cases step m with
  | error e n => rfl
  | ok i n =>
    simp only [if_neg hc, ticked]
    by_cases hd : ((done : Int) + 1) % cadence = 0
    · rw [if_pos hd, if_pos hd]
      rfl
    · rw [if_neg hd, if_neg hd]
      rfl

theorem runFrom_succ {cadence : Int} (hc : cadence ≠ 0) (n done : Nat) (m : Machine) :
    runFrom cadence (n + 1) done m =
      if done ≠ 0 ∧ m.atBreakpoint then .ok .breakpoint m
      else match step m with
        | .ok _ m => runFrom cadence n (done + 1) (ticked cadence done m)
        | .error (.fault f) m => .ok (.ofFault f) { m with lastFault := some f }
        | .error (.misuse u) m => .error (.misuse u) m := by
  rw [runFrom]
  show (ite _ _ _ : EStateM.Result Failure Machine StopReason) = _
  by_cases hb : done ≠ 0 ∧ m.atBreakpoint
  · rw [if_pos hb, if_pos hb]
  · rw [if_neg hb, if_neg hb, turn_eq hc]
    cases step m with
    | ok i m => rfl
    | error e m => cases e <;> rfl

/-- A fault in its first step stops a run, whatever its cadence. -/
theorem runFrom_of_fault {m n : Machine} {f : Fault} (h : step m = .error (.fault f) n)
    (cadence : Int) (budget : Nat) :
    runFrom cadence (budget + 1) 0 m = .ok (.ofFault f) { n with lastFault := some f } := by
  have hfirst : ¬ (0 ≠ 0 ∧ m.atBreakpoint = true) := fun hb => hb.1 rfl
  unfold runFrom
  rw [if_neg hfirst]
  unfold turn
  rw [bind_apply, h]

/-- A run of one instruction whose cadence is longer than that. -/
theorem run_one {cadence : Int} (hc : 1 < cadence) (m : Machine) :
    run 1 (some cadence) m = match step { m with lastFault := none } with
      | .ok _ n => .ok .timeout n
      | .error (.fault f) n => .ok (.ofFault f) { n with lastFault := some f }
      | .error (.misuse u) n => .error (.misuse u) n := by
  have hrun : run 1 (some cadence) m = runFrom cadence 1 0 { m with lastFault := none } := rfl
  have hearly : ¬ (((0 : Nat) : Int) + 1) % cadence = 0 := by
    rw [Int.emod_eq_of_lt (by omega) (by omega)]
    omega
  rw [hrun, runFrom_succ (by omega), if_neg fun h => h.1 rfl]
  cases step { m with lastFault := none } with
  | ok i n =>
    simp only [ticked, if_neg hearly]
    rfl
  | error e n => cases e <;> rfl

/-! ## Issued instructions -/

section

variable {cadence : Int} {n done : Nat} {m m' : Machine} {i : Instr}

theorem fetched_mem_issuedFrom (hb : ¬ (done ≠ 0 ∧ m.atBreakpoint)) (hf : m.fetched = .ok i) :
    i ∈ issuedFrom cadence (n + 1) done m := by
  unfold issuedFrom
  rw [if_neg hb, hf]
  cases turn cadence done m with
  | ok _ m' => exact List.mem_cons_self
  | error e m' => exact List.mem_cons_self

theorem issuedFrom_of_ok (hc : cadence ≠ 0) (hb : ¬ (done ≠ 0 ∧ m.atBreakpoint))
    (hs : step m = .ok i m') :
    issuedFrom cadence (n + 1) done m =
      i :: issuedFrom cadence n (done + 1) (ticked cadence done m') := by
  rw [issuedFrom, if_neg hb, (step_eq_ok_iff.1 hs).1, turn_eq hc, hs]

end

/-! ## Reasons to stop -/

theorem ofFault_ne_timeout (f : Fault) : StopReason.ofFault f ≠ .timeout := by
  unfold StopReason.ofFault
  split <;> nofun

theorem ofFault_ne_breakpoint (f : Fault) : StopReason.ofFault f ≠ .breakpoint := by
  unfold StopReason.ofFault
  split <;> nofun

/-- Why a run has stopped, if it has. -/
def reason? (r : EStateM.Result Failure Machine StopReason) : Option StopReason :=
  match r with
  | .ok reason _ => some reason
  | .error _ _ => none

theorem exists_of_reason? {r : EStateM.Result Failure Machine StopReason} {reason : StopReason}
    (h : reason? r = some reason) : ∃ m, r = .ok reason m := by
  cases r with
  | ok s m => cases h; exact ⟨m, rfl⟩
  | error e m => cases h

/-! ## What a step keeps -/

theorem stepClosed_lastFault : StepClosed fun m n => n.lastFault = m.lastFault where
  refl _ := rfl
  trans h₁ h₂ := h₂.trans h₁
  registers _ _ := rfl
  timers _ _ := rfl
  write _ _ _ _ _ := rfl
  push _ _ _ _ := rfl
  pop _ _ _ _ := rfl
  clear _ := rfl
  draw _ _ _ _ _ _ _ := rfl
  random _ := rfl
  trace _ _ := rfl

theorem lastFault_of_step {m n : Machine} {i : Instr} (h : step m = .ok i n) :
    n.lastFault = m.lastFault := by
  have hk := stepClosed_lastFault.step m
  rw [after_of_ok h] at hk
  exact hk

end Chip8.Machine
