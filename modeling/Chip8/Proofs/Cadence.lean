import Mathlib.Algebra.Order.Field.Rat
import Mathlib.Algebra.Order.Ring.Cast
import Chip8.Proofs.Atomicity
import Chip8.Proofs.Parts
import Chip8.Proofs.Reset
import Chip8.Proofs.Visits

/-!
# The cadence of the timers

Of a run, only its ticks and the instructions that set a timer change that timer. A tick comes after
every turn whose number the cadence divides, so that `j` turns bring as many ticks as the cadence
goes into `j` (`value_of_runFrom`). The cadence of a configuration rounds the ratio of its rates
down, which loses less than half of it (`Config.Accepted.cadence_bounds`).
-/

namespace Chip8

/-! ## The cadence of a configuration -/

/-- Timers tick no later than their rate asks for, and at most twice as fast. -/
theorem Config.Accepted.cadence_bounds {c : Config} (h : c.Accepted) {j : Int} (hj : 0 ≤ j) :
    j * c.timerHz / c.cpuHz ≤ j / c.cadence ∧ j / c.cadence * c.cpuHz ≤ 2 * j * c.timerHz := by
  have htimer := h.timer_pos
  have hcpu : 0 < c.cpuHz := Int.lt_of_lt_of_le htimer h.timer_le
  have hpos := h.cadence_pos
  have hlow : c.cadence * c.timerHz ≤ c.cpuHz := Int.ediv_mul_le _ htimer.ne'
  have hhigh : c.cpuHz ≤ 2 * (c.cadence * c.timerHz) := by
    have hround : c.cpuHz < (c.cadence + 1) * c.timerHz := Int.lt_ediv_add_one_mul_self _ htimer
    have hone : 1 * c.timerHz ≤ c.cadence * c.timerHz :=
      Int.mul_le_mul_of_nonneg_right hpos (Int.le_of_lt htimer)
    rw [Int.add_mul] at hround
    omega
  constructor
  · have hq : 0 ≤ j * c.timerHz / c.cpuHz :=
      Int.ediv_nonneg (Int.mul_nonneg hj (Int.le_of_lt htimer)) (Int.le_of_lt hcpu)
    apply Int.le_ediv_of_mul_le hpos
    apply Int.le_of_mul_le_mul_right _ htimer
    calc j * c.timerHz / c.cpuHz * c.cadence * c.timerHz
        = j * c.timerHz / c.cpuHz * (c.cadence * c.timerHz) := Int.mul_assoc _ _ _
      _ ≤ j * c.timerHz / c.cpuHz * c.cpuHz := Int.mul_le_mul_of_nonneg_left hlow hq
      _ ≤ j * c.timerHz := Int.ediv_mul_le _ hcpu.ne'
  · have hp : 0 ≤ j / c.cadence := Int.ediv_nonneg hj (Int.le_of_lt hpos)
    calc j / c.cadence * c.cpuHz
        ≤ j / c.cadence * (2 * (c.cadence * c.timerHz)) := Int.mul_le_mul_of_nonneg_left hhigh hp
      _ = 2 * (j / c.cadence * c.cadence * c.timerHz) := by
          rw [Int.mul_left_comm, Int.mul_assoc (j / c.cadence)]
      _ ≤ 2 * (j * c.timerHz) := by
          have hdown : j / c.cadence * c.cadence ≤ j := Int.ediv_mul_le _ hpos.ne'
          have hscaled := Int.mul_le_mul_of_nonneg_right hdown (Int.le_of_lt htimer)
          omega
      _ = 2 * j * c.timerHz := (Int.mul_assoc _ _ _).symm

/-! ## One timer -/

/-- One of the two timers. -/
inductive Timer where
  | delay
  | sound
  deriving DecidableEq, Repr

namespace Timer

def value (t : Timer) (ts : Timers) : Nat :=
  match t with
  | delay => ts.delay.toNat
  | sound => ts.sound.toNat

/-- The opcode that sets the timer. -/
def setter : Timer → Opcode
  | delay => .reg .setDelay
  | sound => .reg .setSound

theorem value_tick (t : Timer) (ts : Timers) : t.value ts.tick = t.value ts - 1 := by
  cases t <;> exact Timers.toNat_countDown _

end Timer

namespace Machine

variable {m n : Machine} {i : Instr} {t : Timer} {k : Int}

/-! ## Steps and ticks -/

theorem value_of_step (hi : i.opcode ≠ t.setter) (h : step m = .ok i n) :
    t.value n.timers = t.value m.timers := by
  obtain ⟨-, hx⟩ := step_eq_ok_iff.1 h
  cases t with
  | delay =>
    have hkept : Part.delay.Kept m n := kept_of_execute (fun hw => hi (List.mem_singleton.1 hw)) hx
    exact congrArg UInt8.toNat hkept
  | sound =>
    have hkept : Part.sound.Kept m n := kept_of_execute (fun hw => hi (List.mem_singleton.1 hw)) hx
    exact congrArg UInt8.toNat hkept

theorem timers_of_fault {f : Fault} (h : step m = .error (.fault f) n) : n.timers = m.timers := by
  rcases step_eq_fault_iff.1 h with ⟨-, rfl⟩ | ⟨i, o, hf, hx, rfl⟩
  · rfl
  · exact (fails_of_execute (fits_of_fetched hf) hx).sameAround.rewound.timers

/-- The ticks of the first `j + 1` turns are those of the first `j`, and one more if it is due. -/
theorem succ_div_natAbs (k : Int) (j : Nat) :
    (j + 1) / k.natAbs = j / k.natAbs + if ((j : Int) + 1) % k = 0 then 1 else 0 := by
  have hdvd : k.natAbs ∣ j + 1 ↔ ((j : Int) + 1) % k = 0 := by
    rw [← Int.dvd_iff_emod_eq_zero, ← Int.natAbs_dvd_natAbs]
    rfl
  rw [Nat.succ_div]
  simp only [hdvd]

theorem value_ticked (t : Timer) (k : Int) (done : Nat) (m : Machine) :
    t.value (ticked k done m).timers =
      t.value m.timers - ((done + 1) / k.natAbs - done / k.natAbs) := by
  rw [succ_div_natAbs, Nat.add_sub_cancel_left]
  unfold ticked
  by_cases hdue : ((done : Int) + 1) % k = 0
  · rw [if_pos hdue, if_pos hdue]
    exact t.value_tick m.timers
  · rw [if_neg hdue, if_neg hdue]
    rfl

/-! ## Runs -/

/-- The instruction that a step from `m` executes, if it succeeds. -/
def ran? (m : Machine) : Option Instr :=
  match step m with
  | .ok i _ => some i
  | .error _ _ => none

def completedFrom (cadence : Int) (budget done : Nat) (m : Machine) : List Instr :=
  (visitedFrom cadence budget done m).filterMap ran?

/-- The instructions that a run executes with success. -/
def completed (m : Machine) (budget : Int) (cadence? : Option Int) : List Instr :=
  (m.visited (.run budget cadence?)).filterMap ran?

theorem completedFrom_succ (hk : k ≠ 0) (budget done : Nat) (m : Machine) :
    completedFrom k (budget + 1) done m =
      if done ≠ 0 ∧ m.atBreakpoint then []
      else match step m with
        | .ok i n => i :: completedFrom k budget (done + 1) (ticked k done n)
        | .error _ _ => [] := by
  unfold completedFrom
  rw [visitedFrom_succ hk]
  by_cases hb : done ≠ 0 ∧ m.atBreakpoint
  · rw [if_pos hb, if_pos hb]
    rfl
  · rw [if_neg hb, if_neg hb]
    cases hs : step m with
    | ok i n =>
      have hran : ran? m = some i := by
        unfold ran?
        rw [hs]
      exact List.filterMap_cons_some hran
    | error e n =>
      have hran : ran? m = none := by
        unfold ran?
        rw [hs]
      exact List.filterMap_cons_none hran

/-- A timer that no instruction sets counts the ticks of the run. -/
theorem value_of_runFrom {budget done : Nat} {reason : StopReason} (hk : k ≠ 0)
    (h : runFrom k budget done m = .ok reason n)
    (hset : ∀ i ∈ completedFrom k budget done m, i.opcode ≠ t.setter) :
    t.value n.timers = t.value m.timers -
      ((done + (completedFrom k budget done m).length) / k.natAbs - done / k.natAbs) := by
  induction budget generalizing done m with
  | zero =>
    cases h
    simp [completedFrom, visitedFrom]
  | succ budget ih =>
    rw [completedFrom_succ hk] at hset ⊢
    rw [runFrom_succ hk] at h
    by_cases hb : done ≠ 0 ∧ m.atBreakpoint
    · rw [if_pos hb] at h
      rw [if_pos hb]
      cases h
      simp
    · rw [if_neg hb] at h hset
      rw [if_neg hb]
      rcases step_ok_or_fault m with ⟨i, o, hs⟩ | ⟨f, o, hs⟩
      · simp only [hs, List.mem_cons, forall_eq_or_imp] at h hset ⊢
        have hrest := ih h hset.2
        rw [value_ticked, value_of_step hset.1 hs] at hrest
        rw [hrest, List.length_cons]
        generalize (completedFrom k budget (done + 1) (ticked k done o)).length = rest
        have hfirst : done / k.natAbs ≤ (done + 1) / k.natAbs := Nat.div_le_div_right (by omega)
        have hlater : (done + 1) / k.natAbs ≤ (done + 1 + rest) / k.natAbs :=
          Nat.div_le_div_right (by omega)
        rw [show done + (rest + 1) = done + 1 + rest by omega]
        omega
      · simp only [hs] at h ⊢
        cases h
        simp [timers_of_fault hs]

/-- Timers keep the cadence of a run. Whatever stops a run whose cadence is not 0, a timer that none
of the instructions executed by it sets has by then gone down by 1, though not below 0, for every
time that the cadence goes into the number of these instructions. The cadence of an accepted
configuration is positive, and timers that tick by it tick, for any number of instructions, at least
as often as in the ratio of the two rates, and at most twice as often. -/
theorem timers_keep_cadence :
    (∀ (m : Machine) (budget : Int) (cadence? : Option Int),
      cadence?.getD m.config.cadence ≠ 0 → ∃ reason n, run budget cadence? m = .ok reason n ∧
        ∀ t : Timer, (∀ i ∈ m.completed budget cadence?, i.opcode ≠ t.setter) →
          t.value n.timers = t.value m.timers -
            (m.completed budget cadence?).length / (cadence?.getD m.config.cadence).natAbs) ∧
    ∀ c : Config, c.rejection? = none → 1 ≤ c.cadence ∧ ∀ j : Nat,
      j * c.timerHz / c.cpuHz ≤ j / c.cadence ∧
        ((j / c.cadence : Int) : ℚ) ≤ 2 * j * c.timerHz / c.cpuHz := by
  refine ⟨fun m budget cadence? hk => ?_, fun c hc => ?_⟩
  · obtain ⟨reason, n, hr⟩ := runFrom_ok hk budget.toNat 0 (m.blame none)
    refine ⟨reason, n, hr, fun t hset => ?_⟩
    have hvalue := value_of_runFrom hk hr hset
    rwa [Nat.zero_add, Nat.zero_div, Nat.sub_zero] at hvalue
  · have ha := Config.rejection?_eq_none_iff.1 hc
    have hcpu : 0 < c.cpuHz := Int.lt_of_lt_of_le ha.timer_pos ha.timer_le
    refine ⟨ha.cadence_pos, fun j => ?_⟩
    obtain ⟨hlow, hhigh⟩ := ha.cadence_bounds (Int.natCast_nonneg j)
    refine ⟨hlow, ?_⟩
    rw [le_div_iff₀ (Int.cast_pos.2 hcpu)]
    exact_mod_cast hhigh

/-- Two additions around a sound, and a return to nowhere. -/
def sounding : List UInt8 :=
  [0x70, 0x01, 0xF0, 0x18, 0x70, 0x01, 0x00, 0xEE]

/-- Three instructions are executed before the return fails, and the cadence of -2 goes into their
number once. Rates that are almost as 2 to 1 have the cadence 1. -/
theorem timers_keep_cadence_sounding :
    (∃ m n, m.Reachable ∧ run 9 (some (-2)) m = .ok .error n ∧
      (m.completed 9 (some (-2))).map Instr.opcode = [.byte .add, .reg .setSound, .byte .add] ∧
      Timer.delay.value m.timers = 9 ∧ Timer.delay.value n.timers = 8) ∧
    ({ cpuHz := 119 } : Config).rejection? = none ∧ ({ cpuHz := 119 } : Config).cadence = 1 ∧
      ((100 / ({ cpuHz := 119 } : Config).cadence : Int) : ℚ) ≤ 2 * 100 * 60 / 119 := by
  constructor
  · obtain ⟨m, hm, hcheck⟩ := exists_reachable small [.load sounding none, .setDelay 9]
      (fun m => decide (reason? (run 9 (some (-2)) m) = some .error ∧
        (m.completed 9 (some (-2))).map Instr.opcode =
          [.byte .add, .reg .setSound, .byte .add] ∧ Timer.delay.value m.timers = 9))
      (by decide) (by decide +kernel)
    obtain ⟨hreason, hcompleted, hdelay⟩ := of_decide_eq_true hcheck
    obtain ⟨reason, n, hr, hvalue⟩ :=
      timers_keep_cadence.1 m 9 (some (-2)) (by rw [Option.getD_some]; decide)
    rw [hr] at hreason
    cases hreason
    have hunset : ∀ i ∈ m.completed 9 (some (-2)), i.opcode ≠ Timer.delay.setter := by
      intro i hi
      have hmem := List.mem_map_of_mem (f := Instr.opcode) hi
      rw [hcompleted] at hmem
      intro heq
      rw [heq] at hmem
      exact absurd hmem (by decide)
    have hdown := hvalue .delay hunset
    rw [hdelay, ← List.length_map Instr.opcode, hcompleted] at hdown
    exact ⟨m, n, hm, hr, hcompleted, hdelay, by simpa using hdown⟩
  · obtain ⟨-, hbounds⟩ := timers_keep_cadence.2 { cpuHz := 119 } (by decide)
    exact ⟨by decide, by decide, by simpa using (hbounds 100).2⟩

end Machine

end Chip8
