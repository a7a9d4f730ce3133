import Chip8.Proofs.Reset
import Chip8.Proofs.Stopping

/-!
# Runs in parts

A budget can be spent in parts. `runFrom_add` goes on where the first part has run out of time, with
the number of turns so far. A new run counts its turns from 0 again; that makes no difference to
its ticks if the cadence divides the turns of the first part, and none to its breakpoints unless it
starts at one (`runFrom_restart`).
-/

namespace Chip8.Machine

variable {m n : Machine} {k : Int}

/-! ## One run -/

/-- What becomes of a run if `next` is to follow when its budget is used up. -/
def onTimeout (next : Action StopReason) :
    EStateM.Result Failure Machine StopReason → EStateM.Result Failure Machine StopReason
  | .ok .timeout n => next n
  | r => r

theorem onTimeout_of_ne {next : Action StopReason} {r : StopReason} (hr : r ≠ .timeout)
    (n : Machine) : onTimeout next (.ok r n) = .ok r n := by
  cases r with
  | timeout => exact absurd rfl hr
  | _ => rfl

/-- A run of `a + b` turns goes on where one of `a` has run out of time. -/
theorem runFrom_add (hk : k ≠ 0) (a b done : Nat) (m : Machine) :
    runFrom k (a + b) done m = onTimeout (runFrom k b (done + a)) (runFrom k a done m) := by
  induction a generalizing done m with
  | zero =>
    rw [Nat.zero_add]
    rfl
  | succ a ih =>
    rw [Nat.add_right_comm, runFrom_succ hk, runFrom_succ hk]
    by_cases hb : done ≠ 0 ∧ m.atBreakpoint
    · rw [if_pos hb, if_pos hb]
      rfl
    · rw [if_neg hb, if_neg hb]
      cases step m with
      | ok i o =>
        have hrest := ih (done + 1) (ticked k done o)
        rwa [Nat.add_assoc done, Nat.add_comm 1] at hrest
      | error e o =>
        cases e with
        | misuse u => rfl
        | fault f => exact (onTimeout_of_ne (ofFault_ne_timeout f) _).symm

theorem runFrom_add_of_timeout {a done : Nat} (hk : k ≠ 0)
    (h : runFrom k a done m = .ok .timeout n) (b : Nat) :
    runFrom k (a + b) done m = runFrom k b (done + a) n := by
  rw [runFrom_add hk, h]
  rfl

/-- A larger budget does not change a run that has stopped by itself. -/
theorem runFrom_add_of_ne_timeout {a done : Nat} {r : StopReason} (hk : k ≠ 0)
    (h : runFrom k a done m = .ok r n) (hr : r ≠ .timeout) (b : Nat) :
    runFrom k (a + b) done m = .ok r n := by
  rw [runFrom_add hk, h, onTimeout_of_ne hr]

/-! ## A new run -/

/-- Where a multiple of the cadence has been counted, ticks fall as they do from the start. -/
theorem ticked_add {a : Nat} (ha : k ∣ a) (j : Nat) (m : Machine) :
    ticked k (a + j) m = ticked k j m := by
  have hphase : (((a + j : Nat) : Int) + 1) % k = ((j : Int) + 1) % k := by
    rw [Int.natCast_add, Int.add_assoc, Int.add_emod, Int.emod_eq_zero_of_dvd ha, Int.zero_add,
      Int.emod_emod]
  unfold ticked
  rw [hphase]

theorem runFrom_add_succ {a : Nat} (hk : k ≠ 0) (ha : k ∣ a) (budget j : Nat) (m : Machine) :
    runFrom k budget (a + (j + 1)) m = runFrom k budget (j + 1) m := by
  induction budget generalizing j m with
  | zero => rfl
  | succ budget ih =>
    have hbreak : (a + (j + 1) ≠ 0 ∧ m.atBreakpoint) ↔ (j + 1 ≠ 0 ∧ m.atBreakpoint) :=
      and_congr_left fun _ => ⟨fun _ => Nat.succ_ne_zero j, fun _ => Nat.succ_ne_zero (a + j)⟩
    rw [runFrom_succ hk, runFrom_succ hk]
    simp only [hbreak, ticked_add ha, Nat.add_assoc a (j + 1) 1, ih]

/-- A run that goes on after a multiple of the cadence goes on like a new one, unless that would
start at a breakpoint, which a new run does not look at. -/
theorem runFrom_restart {a budget : Nat} (hk : k ≠ 0) (ha : k ∣ a)
    (h : a = 0 ∨ budget = 0 ∨ ¬ m.atBreakpoint) :
    runFrom k budget a m = runFrom k budget 0 m := by
  cases budget with
  | zero => rfl
  | succ budget =>
    have hbreak : ¬ (a ≠ 0 ∧ m.atBreakpoint) := by
      rintro ⟨hne, hat⟩
      rcases h with h | h | h
      · exact hne h
      · cases h
      · exact h hat
    rw [runFrom_succ hk, runFrom_succ hk, if_neg hbreak, if_neg fun hb => hb.1 rfl]
    have htick := ticked_add (k := k) ha 0
    have hrest := runFrom_add_succ hk ha budget 0
    rw [Nat.add_zero] at htick
    simp only [htick, hrest]

/-! ## What a run leaves -/

theorem runClosed_breakpoints : RunClosed fun m n => n.breakpoints = m.breakpoints where
  refl _ := rfl
  trans h₁ h₂ := h₂.trans h₁
  step := stepClosed_breakpoints.step
  tick _ := rfl
  lastFault _ _ := rfl

theorem lastFault_of_timeout {budget done : Nat} (hk : k ≠ 0)
    (h : runFrom k budget done m = .ok .timeout n) : n.lastFault = m.lastFault := by
  induction budget generalizing done m with
  | zero =>
    cases h
    rfl
  | succ budget ih =>
    rw [runFrom_succ hk] at h
    by_cases hb : done ≠ 0 ∧ m.atBreakpoint
    · rw [if_pos hb] at h
      cases h
    · rw [if_neg hb] at h
      cases hs : step m with
      | ok i o =>
        rw [hs] at h
        rw [ih h, lastFault_ticked, lastFault_of_step hs]
      | error e o =>
        rw [hs] at h
        cases e with
        | misuse u => cases h
        | fault f => exact absurd (EStateM.Result.ok.inj h).1 (ofFault_ne_timeout f)

/-- A run can be split where the cadence divides. Let a run of `a` instructions come first, for a
cadence other than 0 that divides `a`. It ends with a reason. If this is not that its time is up, a
run of `a + b` instructions from the start ends in the same way, in the same state. If it is, a run
of `b` more ends just as the run of `a + b` from the start, timers, last fault and all, unless both
parts have instructions and the second starts at a breakpoint: then the run of `a + b` stops there,
in the state between the two. -/
theorem run_in_parts (m : Machine) {cadence? : Option Int} (a b : Nat)
    (hk : cadence?.getD m.config.cadence ≠ 0) (ha : cadence?.getD m.config.cadence ∣ a) :
    ∃ r n, run a cadence? m = .ok r n ∧
      (r ≠ .timeout → run (a + b) cadence? m = .ok r n) ∧
      (r = .timeout →
        (a = 0 ∨ b = 0 ∨ (n.registers.pc.toNat : Int) ∉ m.breakpoints →
          run b cadence? n = run (a + b) cadence? m) ∧
        (a ≠ 0 → b ≠ 0 → (n.registers.pc.toNat : Int) ∈ m.breakpoints →
          run (a + b) cadence? m = .ok .breakpoint n)) := by
  have hrun (c : Nat) (s : Machine) : run c cadence? s =
      runFrom (cadence?.getD s.config.cadence) c 0 (s.blame none) := rfl
  have hsum : run (a + b) cadence? m =
      runFrom (cadence?.getD m.config.cadence) (a + b) 0 (m.blame none) := hrun (a + b) m
  obtain ⟨r, n, hr⟩ := runFrom_ok hk a 0 (m.blame none)
  refine ⟨r, n, hr, fun hne => ?_, ?_⟩
  · rw [hsum]
    exact runFrom_add_of_ne_timeout hk hr hne b
  · rintro rfl
    have hclean : n.blame none = n := by
      have hlast := lastFault_of_timeout hk hr
      unfold blame
      rw [← show n.lastFault = none from hlast]
    have hconfig : n.config = m.config := by
      have hkept := commandClosed_config.runClosed.runFrom (cadence?.getD m.config.cadence) a 0
        (m.blame none)
      rwa [after_of_ok hr] at hkept
    have hbreakpoints : n.breakpoints = m.breakpoints := by
      have hkept := runClosed_breakpoints.runFrom (cadence?.getD m.config.cadence) a 0
        (m.blame none)
      rwa [after_of_ok hr] at hkept
    have hat : n.atBreakpoint ↔ (n.registers.pc.toNat : Int) ∈ m.breakpoints := by
      unfold atBreakpoint
      rw [hbreakpoints, decide_eq_true_iff]
    have hgo := runFrom_add_of_timeout hk hr b
    rw [Nat.zero_add] at hgo
    refine ⟨fun h => ?_, fun ha0 hb0 hbreak => ?_⟩
    · rw [← hat] at h
      rw [hrun, hconfig, hclean, hsum, hgo, runFrom_restart hk ha h]
    · obtain ⟨b, rfl⟩ := Nat.exists_eq_succ_of_ne_zero hb0
      rw [hsum, hgo, runFrom_succ hk]
      exact if_pos ⟨ha0, hat.2 hbreak⟩

/-- Two instructions, and a return to nowhere. -/
def straying : List UInt8 :=
  [0x70, 0x01, 0x70, 0x01, 0x00, 0xEE]

/-- The run goes on to the return, or stops before it at a breakpoint; the timer ticks once. -/
theorem run_in_parts_straying :
    ∃ m n, m.Reachable ∧ run 2 (some 2) m = .ok .timeout n ∧ n.timers.delay = 8 ∧
      run 5 (some 2) n = run 7 (some 2) m ∧ reason? (run 7 (some 2) m) = some .error ∧
      ∃ o, run 7 (some 2) { m with breakpoints := [0x58] } = .ok .breakpoint o := by
  obtain ⟨m, hm, hcheck⟩ := exists_reachable small [.load straying none, .setDelay 9]
    (fun m => decide (m.breakpoints = [] ∧ reason? (run 2 (some 2) m) = some .timeout ∧
      (after (run 2 (some 2)) m).timers.delay = 8 ∧ reason? (run 7 (some 2) m) = some .error ∧
      reason? (run 2 (some 2) { m with breakpoints := [0x58] }) = some .timeout ∧
      (after (run 2 (some 2)) { m with breakpoints := [0x58] }).registers.pc = 0x58))
    (by decide) (by decide +kernel)
  obtain ⟨hbs, htwo, hdelay, hseven, htwo', hpc⟩ := of_decide_eq_true hcheck
  have hk (d : Int) : (some 2).getD d ≠ 0 := by simp
  have ha (d : Int) : (some 2).getD d ∣ (2 : Nat) := Int.dvd_refl 2
  obtain ⟨r, n, hn, -, hgo⟩ := run_in_parts m 2 5 (hk _) (ha _)
  obtain ⟨r', n', hn', -, hgo'⟩ :=
    run_in_parts { m with breakpoints := [0x58] } 2 5 (hk _) (ha _)
  have hleft : reason? (.ok r n) = some .timeout := by rw [← hn, ← htwo]; rfl
  have hleft' : reason? (.ok r' n') = some .timeout := by rw [← hn', ← htwo']; rfl
  cases hleft
  cases hleft'
  have hdelay' : n.timers.delay = 8 := by rw [← hdelay, ← after_of_ok hn]; rfl
  have hpc' : n'.registers.pc = 0x58 := by rw [← hpc, ← after_of_ok hn']; rfl
  refine ⟨m, n, hm, hn, hdelay', (hgo rfl).1 (.inr (.inr ?_)), hseven, n', ?_⟩
  · rw [hbs]
    exact List.not_mem_nil
  · refine (hgo' rfl).2 nofun nofun ?_
    rw [hpc']
    exact List.mem_singleton.2 rfl

end Chip8.Machine
