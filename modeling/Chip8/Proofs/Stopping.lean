import Chip8.Proofs.Debugging
import Chip8.Proofs.Decoding
import Chip8.Proofs.Session

/-!
# How runs stop

`Passes k m j s` says that `j` turns of a run with cadence `k` lead from `m` to `s`. A run follows
these states (`runFrom_of_passes`) up to the first that `Halts` it, at a breakpoint or in a step
that fails, and stops there; if there is none within its budget, it stops after the last turn.
-/

namespace Chip8.Machine

/-- `j` successful steps lead from `m` to `s`, with a tick after each whose number the cadence
divides. -/
inductive Passes (cadence : Int) (m : Machine) : Nat → Machine → Prop where
  | start : Passes cadence m 0 m
  | turn {j : Nat} {s n : Machine} {i : Instr} (h : Passes cadence m j s)
      (hs : step s = .ok i n) :
      Passes cadence m (j + 1) (if cadence ∣ j + 1 then after tick n else n)

/-- A breakpoint counts, except where the run starts. -/
def Breaks (breakpoints : List Int) (j : Nat) (s : Machine) : Prop :=
  1 ≤ j ∧ (s.registers.pc.toNat : Int) ∈ breakpoints

/-- A run does not go on from `s`, `j` turns in. -/
def Halts (breakpoints : List Int) (j : Nat) (s : Machine) : Prop :=
  Breaks breakpoints j s ∨ ∃ e n, step s = .error e n

/-- The word at the counter has no shape, or an address that is not in memory. -/
def Illegible (s : Machine) : Prop :=
  ∃ w, s.memory.read16 s.registers.pc.toNat = .ok w ∧
    (Instr.Undefined w ∨ (Instr.Addressed w ∧ s.memory.size ≤ w % 4096))

/-- The result of a run that the step from `s` stops. -/
def Faulted (s : Machine) (r : EStateM.Result Failure Machine StopReason) : Prop :=
  ∃ f n, step s = .error (.fault f) n ∧
    ((s.Illegible ∧ n = s ∧ r = .ok .illegal (n.blame (some f))) ∨
      (¬ s.Illegible ∧ r = .ok .error (n.blame (some f))))

variable {m n s : Machine} {k : Int} {j : Nat}

/-! ## Steps that fail -/

theorem family_of_read8 {mem : Memory} {a : Int} {f : Fault} (h : mem.read8 a = .error f) :
    f.family = .memory := by
  unfold Memory.read8 at h
  split at h
  · cases h
  · cases h
    rfl

theorem family_of_read16 {mem : Memory} {a : Int} {f : Fault} (h : mem.read16 a = .error f) :
    f.family = .memory := by
  unfold Memory.read16 at h
  cases hh : mem.read8 a with
  | error g =>
    rw [hh] at h
    cases h
    exact family_of_read8 hh
  | ok high =>
    cases hl : mem.read8 (a + 1) with
    | error g =>
      rw [hh, hl] at h
      cases h
      exact family_of_read8 hl
    | ok low =>
      rw [hh, hl] at h
      cases h

/-- Only a word that is no instruction fails in the way in which such words do. -/
theorem illegible_iff {f : Fault} (h : s.fetched = .error (.fault f)) :
    s.Illegible ↔ f.family = .opcode := by
  unfold Illegible
  unfold fetched at h
  cases hr : s.memory.read16 s.registers.pc.toNat with
  | error g =>
    rw [hr] at h
    cases h
    rw [family_of_read16 hr]
    simp
  | ok w =>
    rw [hr] at h
    have hcases := (Instr.decode_eq_fault_iff (read16_lt hr)).1 h
    constructor
    · intro _
      rcases hcases with ⟨-, rfl⟩ | ⟨-, -, rfl⟩ <;> rfl
    · intro _
      refine ⟨w, rfl, ?_⟩
      rcases hcases with ⟨hu, -⟩ | ⟨ha, hle, -⟩
      · exact .inl hu
      · exact .inr ⟨ha, Int.ofNat_le.1 hle⟩

theorem not_illegible_of_fetched {i : Instr} (h : s.fetched = .ok i) : ¬ s.Illegible := by
  rintro ⟨w, hr, hw⟩
  unfold fetched at h
  rw [hr] at h
  obtain ⟨f, hf⟩ : ∃ f, Instr.decode w s.memory.size = .error (.fault f) := by
    rcases hw with hu | ⟨ha, hle⟩
    · exact ⟨_, Instr.decode_of_undefined (read16_lt hr) hu⟩
    · exact ⟨_, Instr.decode_of_limit_le (read16_lt hr) ha (Int.ofNat_le.2 hle)⟩
  rw [show Instr.decode w s.memory.size = .ok i from h] at hf
  cases hf

/-- An instruction does not fail in the way in which a word does that is none. -/
theorem Fails.family_ne {i : Instr} {f : Fault} (h : Fails m i (.fault f) n) :
    f.family ≠ .opcode := by
  generalize he : Failure.fault f = e at h
  cases h <;> cases he <;> nofun

theorem step_fault_cases {f : Fault} (h : step s = .error (.fault f) n) :
    (s.Illegible ∧ n = s ∧ StopReason.ofFault f = .illegal) ∨
      (¬ s.Illegible ∧ StopReason.ofFault f = .error) := by
  unfold StopReason.ofFault
  rcases step_eq_fault_iff.1 h with ⟨hf, rfl⟩ | ⟨i, n', hf, hx, -⟩
  · by_cases hfam : f.family = .opcode
    · exact .inl ⟨(illegible_iff hf).2 hfam, rfl, if_pos hfam⟩
    · exact .inr ⟨fun hi => hfam ((illegible_iff hf).1 hi), if_neg hfam⟩
  · -- The word was legible, and no instruction fails as an illegible word does.
    have hfam := (fails_of_execute (fits_of_fetched hf) hx).family_ne
    exact .inr ⟨not_illegible_of_fetched hf, if_neg hfam⟩

theorem faulted_of_step {f : Fault} (h : step s = .error (.fault f) n) :
    Faulted s (.ok (.ofFault f) (n.blame (some f))) := by
  refine ⟨f, n, h, ?_⟩
  rcases step_fault_cases h with ⟨hi, hn, hr⟩ | ⟨hi, hr⟩
  · exact .inl ⟨hi, hn, by rw [hr]⟩
  · exact .inr ⟨hi, by rw [hr]⟩

/-! ## The states that a run goes through -/

theorem stepClosed_breakpoints : StepClosed fun m n => n.breakpoints = m.breakpoints where
  refl _ := rfl
  trans h₁ h₂ := h₂.trans h₁
  registers _ _ := rfl
  timers _ _ := rfl
  write _ _ _ _ _ := rfl
  push _ _ _ _ := rfl
  pop _ _ _ _ := rfl
  clear _ := rfl
  draw _ _ _ _ _ _ _ := rfl
  random _ := rfl
  trace _ _ := rfl

theorem ticked_eq (k : Int) (j : Nat) (m : Machine) :
    ticked k j m = if k ∣ j + 1 then after tick m else m := by
  unfold ticked
  simp only [← Int.dvd_iff_emod_eq_zero]
  rfl

theorem Passes.breakpoints (h : Passes k m j s) : s.breakpoints = m.breakpoints := by
  induction h with
  | start => rfl
  | @turn j s n i h hs ih =>
    have hn := stepClosed_breakpoints.step s
    rw [after_of_ok hs] at hn
    rw [← ih, ← hn]
    split <;> rfl

theorem Passes.breaks_iff (h : Passes k m j s) :
    Breaks m.breakpoints j s ↔ j ≠ 0 ∧ (s.blame none).atBreakpoint := by
  unfold Breaks atBreakpoint blame
  rw [← h.breakpoints, decide_eq_true_iff, Nat.one_le_iff_ne_zero]

/-- A run that is not stopped earlier gets to the state that `j` turns lead to. -/
theorem runFrom_of_passes (hk : k ≠ 0) (h : Passes k m j s)
    (hgo : ∀ i t, i < j → Passes k m i t → ¬ Halts m.breakpoints i t) (budget : Nat) :
    runFrom k (j + budget) 0 (m.blame none) = runFrom k budget j (s.blame none) := by
  -- `Passes` grows at its end: the last turn is taken out of the budget that is left.
  induction h generalizing budget with
  | start => rw [Nat.zero_add]
  | @turn j s n i h hs ih =>
    have hbreak : ¬ (j ≠ 0 ∧ (s.blame none).atBreakpoint) := fun hb =>
      hgo j s (Nat.lt_succ_self j) h (.inl (h.breaks_iff.2 hb))
    have hbefore := ih (fun i t hi => hgo i t (Nat.lt_succ_of_lt hi)) (budget + 1)
    rw [show j + 1 + budget = j + (budget + 1) by omega, hbefore, runFrom_succ hk, if_neg hbreak,
      step_blame, hs]
    show runFrom k budget (j + 1) (ticked k j (n.blame none)) = _
    rw [ticked_eq]
    split <;> rfl

/-- Turns can be taken as long as nothing halts. -/
theorem exists_passes (k : Int) (m : Machine) (j : Nat)
    (hgo : ∀ i t, i < j → Passes k m i t → ¬ Halts m.breakpoints i t) : ∃ s, Passes k m j s := by
  induction j with
  | zero => exact ⟨m, .start⟩
  | succ j ih =>
    obtain ⟨s, hs⟩ := ih fun i t hi => hgo i t (Nat.lt_succ_of_lt hi)
    rcases step_ok_or_fault s with ⟨i, n, hstep⟩ | ⟨f, n, hstep⟩
    · exact ⟨_, hs.turn hstep⟩
    · exact absurd (.inr ⟨_, n, hstep⟩) (hgo j s (Nat.lt_succ_self j) hs)

/-- The turn that a run cannot take. -/
theorem runFrom_of_halts (hk : k ≠ 0) (h : Passes k m j s) (hh : Halts m.breakpoints j s)
    (budget : Nat) :
    (Breaks m.breakpoints j s ∧
        runFrom k (budget + 1) j (s.blame none) = .ok .breakpoint (s.blame none)) ∨
      (¬ Breaks m.breakpoints j s ∧
        Faulted s (runFrom k (budget + 1) j (s.blame none))) := by
  rw [runFrom_succ hk]
  by_cases hb : Breaks m.breakpoints j s
  · exact .inl ⟨hb, if_pos (h.breaks_iff.1 hb)⟩
  · refine .inr ⟨hb, ?_⟩
    rw [if_neg fun hb' => hb (h.breaks_iff.2 hb'), step_blame]
    rcases step_ok_or_fault s with ⟨i, n, hs⟩ | ⟨f, n, hs⟩
    · obtain ⟨e, n', he⟩ := hh.resolve_left hb
      rw [he] at hs
      cases hs
    · rw [hs]
      show Faulted s (.ok (.ofFault f) (n.blame (some f)))
      exact faulted_of_step hs

/-- A run whose timers should tick every 0 instructions. -/
theorem runFrom_zero (m : Machine) (budget : Nat) :
    (∀ i s, step m = .ok i s →
      runFrom 0 (budget + 1) 0 (m.blame none) = .error (.misuse .zeroCadence) (s.blame none)) ∧
    (∀ e s, step m = .error e s → Faulted m (runFrom 0 (budget + 1) 0 (m.blame none))) := by
  constructor
  · intro i s hs
    have hfirst : ¬ (0 ≠ 0 ∧ (m.blame none).atBreakpoint = true) := fun hb => hb.1 rfl
    unfold runFrom
    rw [if_neg hfirst]
    unfold turn
    rw [bind_apply, step_blame, hs]
    rfl
  · intro e s hs
    rcases step_ok_or_fault m with ⟨i, n, hm⟩ | ⟨f, n, hm⟩
    · rw [hm] at hs
      cases hs
    · have hblame : step (m.blame none) = .error (.fault f) (n.blame none) := by
        rw [step_blame, hm]
        rfl
      rw [runFrom_of_fault hblame]
      show Faulted m (.ok (.ofFault f) (n.blame (some f)))
      exact faulted_of_step hm

/-- A run stops for the right reason at the right point. Without a state to halt at, it takes all
its turns and runs out of time; else it stops at the first of them: at a breakpoint in this very
state, before the instruction there, and if the step from it fails, in the state which that leaves,
with the fault as the last one. Such a run is stopped for an illegal word just when the word at the
counter is no instruction, and then, too, the state is this one. A cadence of 0 is found out after
the first step, if that succeeds. -/
theorem run_stops_first (m : Machine) (budget k : Int) :
    (k ≠ 0 →
      ((∀ (j : Nat) s, j < budget → Passes k m j s → ¬ Halts m.breakpoints j s) →
        ∃ s, Passes k m budget.toNat s ∧ run budget (some k) m = .ok .timeout (s.blame none)) ∧
      ∀ (j : Nat) s, j < budget → Passes k m j s → Halts m.breakpoints j s →
        (∀ i t, i < j → Passes k m i t → ¬ Halts m.breakpoints i t) →
        (Breaks m.breakpoints j s ∧ run budget (some k) m = .ok .breakpoint (s.blame none)) ∨
          (¬ Breaks m.breakpoints j s ∧ Faulted s (run budget (some k) m))) ∧
    (1 ≤ budget →
      (∀ i s, step m = .ok i s →
        run budget (some 0) m = .error (.misuse .zeroCadence) (s.blame none)) ∧
      ∀ e s, step m = .error e s → Faulted m (run budget (some 0) m)) ∧
    run budget none m = run budget (some m.config.cadence) m := by
  have hrun (k : Int) : run budget (some k) m = runFrom k budget.toNat 0 (m.blame none) := rfl
  refine ⟨fun hk => ⟨fun hgo => ?_, fun j s hj hp hh hgo => ?_⟩, fun hb => ?_, rfl⟩
  · have hgo' : ∀ i t, i < budget.toNat → Passes k m i t → ¬ Halts m.breakpoints i t :=
      fun i t hi => hgo i t (by omega)
    obtain ⟨s, hs⟩ := exists_passes k m budget.toNat hgo'
    refine ⟨s, hs, ?_⟩
    exact (hrun k).trans (runFrom_of_passes hk hs hgo' 0)
  · obtain ⟨rest, hrest⟩ : ∃ rest, budget.toNat = j + (rest + 1) :=
      ⟨budget.toNat - j - 1, by omega⟩
    rw [hrun k, hrest, runFrom_of_passes hk hp hgo]
    exact runFrom_of_halts hk hp hh rest
  · obtain ⟨rest, hrest⟩ : ∃ rest, budget.toNat = rest + 1 := ⟨budget.toNat - 1, by omega⟩
    rw [hrun 0, hrest]
    exact runFrom_zero m rest

/-- After its only instruction there is a word that is none. -/
def misled : Machine :=
  { usual with
    memory := ⟨#[0x60, 0x01, 0xFF, 0xFF]⟩
    timers := ⟨7, 0⟩ }

/-- The instruction is followed by a tick, and the run stops at the word. -/
theorem run_stops_first_misled :
    ∃ s, Passes 1 misled 1 s ∧ s.timers.delay = 6 ∧
      run 5 (some 1) misled = .ok .illegal (s.blame (some (.invalidOpcode 0xFFFF))) := by
  have hstep : step misled = .ok (.byte .load 0 1) (after step misled) := rfl
  have hp : Passes 1 misled 1 (after tick (after step misled)) := Passes.start.turn hstep
  have hbad : step (after tick (after step misled)) =
      .error (.fault (.invalidOpcode 0xFFFF)) (after tick (after step misled)) := rfl
  have hgo : ∀ i t, i < 1 → Passes 1 misled i t → ¬ Halts misled.breakpoints i t := by
    rintro i t hi ht (⟨h1, -⟩ | ⟨e, n, he⟩)
    · omega
    · cases ht with
      | start => rw [hstep] at he; cases he
      | turn => omega
  refine ⟨_, hp, rfl, ?_⟩
  rcases ((run_stops_first misled 5 1).1 (by decide)).2 1 _ (by decide) hp (.inr ⟨_, _, hbad⟩) hgo
    with ⟨⟨-, hb⟩, -⟩ | ⟨-, f, n, hf, hcases⟩
  · cases hb
  · rw [hbad] at hf
    cases hf
    rcases hcases with ⟨-, -, hr⟩ | ⟨hi, -⟩
    · exact hr
    · exact absurd ((illegible_iff rfl).2 rfl) hi

end Chip8.Machine
