import Mathlib.Algebra.Order.Field.Rat
import Mathlib.Data.Rat.Floor
import Mathlib.Tactic.FieldSimp
import Mathlib.Tactic.Linarith
import Mathlib.Tactic.Ring
import Chip8.Proofs.Pacing

/-!
# Deadlines of a paced run

In exact fractions a deadline is the start and a number of periods, however late the earlier ones
were met. So the ticks that have been made by a catch-up are a matter of its reading alone, and an
instruction that has been waited for is never early: `OnTime` says where the deadlines are, one beat
keeps it (`OnTime.beat`), and so does a run (`Course.onTime`).
-/

namespace Chip8.Pacing

/-! ## Catching up -/

/-- The ticks due by `now`, the next of which is due at `next`. -/
def ticksDue (period now next : ℚ) : Nat :=
  (⌊(now - next) / period⌋ + 1).toNat

section

variable {period now next : ℚ}

theorem ticksDue_of_lt (hp : 0 < period) (h : now < next) : ticksDue period now next = 0 := by
  have hneg : (now - next) / period < 0 := div_neg_of_neg_of_pos (sub_neg_of_lt h) hp
  have hfloor : ⌊(now - next) / period⌋ < 0 := Int.floor_lt.2 (by exact_mod_cast hneg)
  unfold ticksDue
  omega

theorem ticksDue_of_le (hp : 0 < period) (h : next ≤ now) :
    ticksDue period now next = ticksDue period now (next + period) + 1 := by
  have hshift : (now - (next + period)) / period = (now - next) / period - 1 := by
    field_simp
    ring
  have hfloor : 0 ≤ ⌊(now - next) / period⌋ :=
    Int.floor_nonneg.2 (div_nonneg (sub_nonneg_of_le h) (le_of_lt hp))
  unfold ticksDue
  rw [hshift, Int.floor_sub_one]
  omega

/-- A clock that has not run away is caught up with: the loop ends after the ticks that are due. -/
theorem catchUp_eq (hp : 0 < period) (limit due : Nat) :
    catchUp period now limit due next =
      if ticksDue period now next ≤ limit then
        some (due + ticksDue period now next, next + ticksDue period now next * period)
      else none := by
  induction limit generalizing due next with
  | zero =>
    unfold catchUp
    by_cases h : next ≤ now
    · rw [if_pos h, ticksDue_of_le hp h, if_neg (Nat.not_succ_le_zero _)]
    · rw [if_neg h, ticksDue_of_lt hp (lt_of_not_ge h), if_pos (Nat.le_refl 0)]
      simp
  | succ limit ih =>
    unfold catchUp
    by_cases h : next ≤ now
    · rw [if_pos h, ih, ticksDue_of_le hp h]
      simp only [Nat.succ_le_succ_iff, Nat.cast_succ]
      congr 3
      · omega
      · ring
    · rw [if_neg h, ticksDue_of_lt hp (lt_of_not_ge h), if_pos (Nat.zero_le _)]
      simp

end

/-! ## Beats -/

/-- One iteration of a paced run: what the clock showed, the ticks that were made up for, and the
world in which the instruction was started. -/
structure Beat (σ : Type) where
  reading : ℚ
  due : Nat
  issue : σ

/-- What a machine comes to if each beat is its ticks and one step, and nothing else ticks. -/
def played {σ : Type} : List (Beat σ) → Machine → EStateM.Result Failure Machine StopReason
  | [], m => .ok .timeout m
  | b :: bs, m =>
    match Machine.step { afterTicks b.due m with lastFault := none } with
    | .ok _ n => played bs n
    | .error (.fault f) n => .ok (.ofFault f) { n with lastFault := some f }
    | .error (.misuse u) n => .error (.misuse u) n

section

variable {σ : Type} (clock : Clock (StateM σ) ℚ) (see : Machine → StateM σ Unit)
  (periods : Periods ℚ) (limit : Nat) (cadence : Int)

/-- The beats of a paced run that ends, with its result. -/
inductive Course : (budget : Nat) → Pace ℚ → Machine → σ → List (Beat σ) →
    EStateM.Result Failure Machine StopReason → σ → Prop where
  | spent (pace : Pace ℚ) (m : Machine) (s : σ) : Course 0 pace m s [] (.ok .timeout m) s
  | goesOn {n : Nat} {pace pace' : Pace ℚ} {m p m' : Machine} {s issue s' : σ} {due : Nat}
      {nextTick : ℚ} {beats : List (Beat σ)} {result : EStateM.Result Failure Machine StopReason}
      (due_eq : catchUp periods.tick (clock.now.run s).1 limit 0 pace.nextTick =
        some (due, nextTick))
      (beat_eq : (beat clock periods limit pace m).run s = (some (pace', p), issue))
      (run_eq : Machine.run 1 (some cadence) p = .ok .timeout m')
      (rest : Course n pace' m' ((see p).run issue).2 beats result s') :
      Course (n + 1) pace m s (⟨(clock.now.run s).1, due, issue⟩ :: beats) result s'
  | ends {n : Nat} {pace pace' : Pace ℚ} {m p : Machine} {s issue : σ} {due : Nat}
      {nextTick : ℚ} {result : EStateM.Result Failure Machine StopReason}
      (due_eq : catchUp periods.tick (clock.now.run s).1 limit 0 pace.nextTick =
        some (due, nextTick))
      (beat_eq : (beat clock periods limit pace m).run s = (some (pace', p), issue))
      (run_eq : Machine.run 1 (some cadence) p = result)
      (stopped : ∀ m', result ≠ .ok .timeout m') :
      Course (n + 1) pace m s [⟨(clock.now.run s).1, due, issue⟩] result ((see p).run issue).2

end

section

variable {σ : Type} {clock : Clock (StateM σ) ℚ} {see : Machine → StateM σ Unit}
  {periods : Periods ℚ} {limit : Nat} {k : Int} {n : Nat} {pace : Pace ℚ} {m : Machine} {s s' : σ}
  {beats : List (Beat σ)} {result : EStateM.Result Failure Machine StopReason}

/-- A paced run takes the course of its beats, and every course is that of a paced run. -/
theorem pacedFrom_eq_some_iff : (pacedFrom clock see periods limit k n pace m).run s =
      (some result, s') ↔
    ∃ beats, Course clock see periods limit k n pace m s beats result s' := by
  constructor
  · intro h
    induction n generalizing pace m s with
    | zero =>
      cases h
      exact ⟨[], .spent pace m _⟩
    | succ n ih =>
      rw [pacedFrom, run_bind] at h
      cases hc : catchUp periods.tick (clock.now.run s).1 limit 0 pace.nextTick with
      | none =>
        rw [beat_runaway hc] at h
        cases h
      | some p =>
        have hbeat := beat_run (m := m) hc
        rw [hbeat] at h
        simp only [run_bind] at h
        by_cases hr : ∃ m', Machine.run 1 (some k) (afterTicks p.1 m) = .ok .timeout m'
        · obtain ⟨m', hr⟩ := hr
          rw [hr] at h
          obtain ⟨beats, hrest⟩ := ih h
          exact ⟨_, .goesOn hc hbeat hr hrest⟩
        · have hstopped : ∀ m', Machine.run 1 (some k) (afterTicks p.1 m) ≠ .ok .timeout m' :=
            not_exists.1 hr
          -- Having it at hand leaves one branch of the match.
          simp only at h
          cases h
          exact ⟨_, .ends hc hbeat rfl hstopped⟩
  · rintro ⟨beats, h⟩
    induction h with
    | spent pace m s => rfl
    | goesOn hdue hbeat hrun _ ih =>
      rw [pacedFrom, run_bind, hbeat]
      simp only [run_bind, hrun]
      exact ih
    | ends hdue hbeat hrun hne =>
      rw [pacedFrom, run_bind, hbeat]
      simp only [run_bind, hrun]
      rfl

theorem machine_of_beat {due : Nat} {nextTick : ℚ} {pace' : Pace ℚ} {p : Machine} {issue : σ}
    (hdue : catchUp periods.tick (clock.now.run s).1 limit 0 pace.nextTick = some (due, nextTick))
    (hbeat : (beat clock periods limit pace m).run s = (some (pace', p), issue)) :
    p = afterTicks due m := by
  rw [beat_run hdue] at hbeat
  cases hbeat
  rfl

/-- The run of one instruction makes no tick: it comes to what the step of a beat comes to. -/
theorem played_cons (hk : 1 < k) (b : Beat σ) (beats : List (Beat σ)) (m : Machine) :
    played (b :: beats) m = match Machine.run 1 (some k) (afterTicks b.due m) with
      | .ok .timeout n => played beats n
      | result => result := by
  rw [played, Machine.run_one hk]
  cases Machine.step { afterTicks b.due m with lastFault := none } with
  | ok i n => rfl
  | error e n =>
    cases e with
    | misuse u => rfl
    | fault f =>
      have hne := Machine.ofFault_ne_timeout f
      dsimp only
      generalize StopReason.ofFault f = reason at hne
      cases reason with
      | timeout => exact absurd rfl hne
      | breakpoint => rfl
      | illegal => rfl
      | error => rfl

theorem Course.played_eq (hk : 0 < n → 1 < k)
    (h : Course clock see periods limit k n pace m s beats result s') :
    played beats m = result := by
  induction h with
  | spent pace m s => rfl
  | goesOn hdue hbeat hrun _ ih =>
    obtain rfl := machine_of_beat hdue hbeat
    rw [played_cons (hk (Nat.succ_pos _)), hrun]
    exact ih fun _ => hk (Nat.succ_pos _)
  | ends hdue hbeat hrun hstopped =>
    obtain rfl := machine_of_beat hdue hbeat
    rw [played_cons (hk (Nat.succ_pos _)), hrun]
    split
    · exact absurd rfl (hstopped _)
    · rfl

theorem Course.reading_eq {b : Beat σ}
    (h : Course clock see periods limit k n pace m s (b :: beats) result s') :
    b.reading = (clock.now.run s).1 := by
  cases h with
  | goesOn => rfl
  | ends => rfl

theorem Course.length_le (h : Course clock see periods limit k n pace m s beats result s') :
    beats.length ≤ n := by
  induction h with
  | spent pace m s => exact Nat.le_refl 0
  | goesOn _ _ _ _ ih => exact Nat.succ_le_succ ih
  | ends _ _ _ _ => exact Nat.succ_le_succ (Nat.zero_le _)

/-- Only a run that is stopped leaves some of its budget. -/
theorem Course.length_eq_or (h : Course clock see periods limit k n pace m s beats result s') :
    beats.length = n ∨ ∀ m', result ≠ .ok .timeout m' := by
  induction h with
  | spent pace m s => exact .inl rfl
  | goesOn _ _ _ _ ih => exact ih.imp_left (congrArg Nat.succ)
  | ends _ _ _ hstopped => exact .inr hstopped

end

/-! ## Ends -/

/-- A paced run ends, whatever its clock shows, if it may make up for enough ticks. -/
theorem exists_course {σ : Type} (clock : Clock (StateM σ) ℚ) (see : Machine → StateM σ Unit)
    (periods : Periods ℚ) (hp : 0 < periods.tick) (k : Int) (n : Nat) (pace : Pace ℚ) (m : Machine)
    (s : σ) : ∃ limit₀ beats result s', ∀ limit, limit₀ ≤ limit →
      Course clock see periods limit k n pace m s beats result s' := by
  induction n generalizing pace m s with
  | zero => exact ⟨0, _, _, _, fun _ _ => .spent pace m s⟩
  | succ n ih =>
    have hcatch {limit : Nat}
        (hl : ticksDue periods.tick (clock.now.run s).1 pace.nextTick ≤ limit) :=
      (catchUp_eq hp limit 0).trans (if_pos hl)
    rw [Nat.zero_add] at hcatch
    generalize ticksDue periods.tick (clock.now.run s).1 pace.nextTick = due at hcatch
    let b : Beat σ := ⟨(clock.now.run s).1, due, awaited clock pace.nextStep s⟩
    by_cases hr : ∃ m', Machine.run 1 (some k) (afterTicks due m) = .ok .timeout m'
    · obtain ⟨m', hr⟩ := hr
      obtain ⟨limit₁, beats, result, s', hrest⟩ :=
        ih ⟨pace.nextStep + periods.step, pace.nextTick + due * periods.tick⟩ m'
          ((see (afterTicks due m)).run b.issue).2
      -- What is enough for this beat and for those that follow is enough for all.
      refine ⟨max due limit₁, b :: beats, result, s', fun limit hl => ?_⟩
      have hdue := hcatch (le_trans (Nat.le_max_left _ _) hl)
      exact .goesOn hdue (beat_run hdue) hr (hrest limit (le_trans (Nat.le_max_right _ _) hl))
    · refine ⟨due, [b], Machine.run 1 (some k) (afterTicks due m),
        ((see (afterTicks due m)).run b.issue).2, fun limit hl => ?_⟩
      have hdue := hcatch hl
      exact .ends hdue (beat_run hdue) rfl (not_exists.1 hr)

/-! ## Steady clocks -/

section

variable {σ : Type} {clock : Clock (StateM σ) ℚ} {see : Machine → StateM σ Unit} {time : σ → ℚ}

/-- A clock that never goes back and sleeps no less than it is asked to. It stands at `time` in a
state of the world, so that what it shows lies between the times before and after it is read. -/
structure Steady (clock : Clock (StateM σ) ℚ) (see : Machine → StateM σ Unit) (time : σ → ℚ) :
    Prop where
  le_now : ∀ s, time s ≤ (clock.now.run s).1
  now_le : ∀ s, (clock.now.run s).1 ≤ time (clock.now.run s).2
  sleep : ∀ s d, 0 < d → time s + d ≤ time ((clock.sleep d).run s).2
  see : ∀ s m, time s ≤ time ((see m).run s).2

/-- It is enough that readings never decrease, and that those around a sleep lie that far apart. -/
theorem Steady.of_readings (hnow : ∀ s, (clock.now.run s).1 ≤ (clock.now.run (clock.now.run s).2).1)
    (hsleep : ∀ s d, 0 < d →
      (clock.now.run s).1 + d ≤ (clock.now.run ((clock.sleep d).run s).2).1)
    (hsee : ∀ s m, (clock.now.run s).1 ≤ (clock.now.run ((see m).run s).2).1) :
    Steady clock see fun s => (clock.now.run s).1 where
  le_now _ := le_refl _
  now_le := hnow
  sleep := hsleep
  see := hsee

theorem Steady.le_awaited (h : Steady clock see time) (nextStep : ℚ) (s : σ) :
    nextStep ≤ time (awaited clock nextStep s) ∧
      (clock.now.run s).1 ≤ time (awaited clock nextStep s) := by
  have hnow := h.now_le s
  unfold awaited
  by_cases hs : (clock.now.run s).1 < nextStep
  · rw [if_pos hs]
    have hsleep := h.sleep (clock.now.run s).2 _ (sub_pos_of_lt hs)
    constructor <;> linarith
  · rw [if_neg hs]
    exact ⟨le_trans (le_of_not_gt hs) hnow, hnow⟩

variable {t₀ cpuHz timerHz now reading : ℚ} {i ticks due : Nat} {pace : Pace ℚ}

theorem deadline_le_iff (htimer : 0 < timerHz) (x : ℚ) :
    t₀ + x / timerHz ≤ reading ↔ x ≤ (reading - t₀) * timerHz := by
  rw [← le_sub_iff_add_le', div_le_iff₀ htimer]

/-- The deadlines after `i` instructions and `ticks` ticks. The last of the ticks has come due. -/
structure OnTime (t₀ cpuHz timerHz : ℚ) (i ticks : Nat) (pace : Pace ℚ) (now : ℚ) : Prop where
  nextStep_eq : pace.nextStep = t₀ + i / cpuHz
  nextTick_eq : pace.nextTick = t₀ + ticks / timerHz
  lastTick_le : t₀ + (ticks - 1) / timerHz ≤ now

theorem OnTime.start (cpuHz : ℚ) (htimer : 0 < timerHz) (h : t₀ ≤ now) :
    OnTime t₀ cpuHz timerHz 0 0 ⟨t₀, t₀⟩ now where
  nextStep_eq := by simp
  nextTick_eq := by simp
  lastTick_le := by
    have hnone : ((0 : Nat) - 1 : ℚ) ≤ 0 := by norm_num
    have hbefore := div_nonpos_of_nonpos_of_nonneg hnone (le_of_lt htimer)
    linarith

theorem OnTime.later {now' : ℚ} (h : OnTime t₀ cpuHz timerHz i ticks pace now) (hle : now ≤ now') :
    OnTime t₀ cpuHz timerHz i ticks pace now' :=
  { h with lastTick_le := le_trans h.lastTick_le hle }

/-- A catch-up makes up for as many ticks as its reading asks for, and both deadlines move on. -/
theorem OnTime.caughtUp (htimer : 0 < timerHz) (h : OnTime t₀ cpuHz timerHz i ticks pace reading)
    {limit : Nat} {nextTick : ℚ}
    (hc : catchUp (1 / timerHz) reading limit 0 pace.nextTick = some (due, nextTick)) :
    ((ticks + due : Nat) : Int) = ⌊(reading - t₀) * timerHz⌋ + 1 ∧
      OnTime t₀ cpuHz timerHz (i + 1) (ticks + due) ⟨pace.nextStep + 1 / cpuHz, nextTick⟩
        reading := by
  rw [catchUp_eq (one_div_pos.2 htimer)] at hc
  obtain ⟨-, heq⟩ := Option.ite_none_right_eq_some.1 hc
  obtain ⟨hdue, hnext⟩ := Prod.mk.inj (Option.some.inj heq)
  rw [Nat.zero_add] at hdue
  have hfloor : ⌊(reading - pace.nextTick) / (1 / timerHz)⌋ =
      ⌊(reading - t₀) * timerHz⌋ - ticks := by
    rw [← Int.floor_sub_natCast, h.nextTick_eq]
    congr 1
    field_simp
    ring
  have hpast : (ticks : Int) - 1 ≤ ⌊(reading - t₀) * timerHz⌋ := by
    rw [Int.le_floor]
    push_cast
    exact (deadline_le_iff htimer _).1 h.lastTick_le
  have hticks : ((ticks + due : Nat) : Int) = ⌊(reading - t₀) * timerHz⌋ + 1 := by
    unfold ticksDue at hdue
    rw [hfloor] at hdue
    omega
  refine ⟨hticks, ?_, ?_, ?_⟩
  · show pace.nextStep + 1 / cpuHz = _
    rw [h.nextStep_eq]
    push_cast
    ring
  · show nextTick = _
    rw [← hnext, hdue, h.nextTick_eq]
    push_cast
    ring
  · have hlast : ((ticks + due : Nat) : ℚ) - 1 = (⌊(reading - t₀) * timerHz⌋ : Int) := by
      rw [eq_sub_of_add_eq hticks.symm]
      push_cast
      rfl
    rw [deadline_le_iff htimer, hlast]
    exact Int.floor_le _

section

variable {limit : Nat} {m : Machine} {s : σ}

/-- What one beat does to the deadlines. -/
theorem OnTime.beat (hclock : Steady clock see time) (htimer : 0 < timerHz)
    (h : OnTime t₀ cpuHz timerHz i ticks pace (time s)) {nextTick : ℚ} {pace' : Pace ℚ}
    {p : Machine} {issue : σ}
    (hdue : catchUp (1 / timerHz) (clock.now.run s).1 limit 0 pace.nextTick = some (due, nextTick))
    (hbeat : (beat clock ⟨1 / cpuHz, 1 / timerHz⟩ limit pace m).run s = (some (pace', p), issue)) :
    ((ticks + due : Nat) : Int) = ⌊((clock.now.run s).1 - t₀) * timerHz⌋ + 1 ∧
      t₀ + i / cpuHz ≤ time issue ∧
      OnTime t₀ cpuHz timerHz (i + 1) (ticks + due) pace' (time issue) := by
  rw [beat_run hdue] at hbeat
  cases hbeat
  obtain ⟨hstep, hreading⟩ := hclock.le_awaited pace.nextStep s
  obtain ⟨hticks, hnext⟩ := (h.later (hclock.le_now s)).caughtUp htimer hdue
  exact ⟨hticks, h.nextStep_eq ▸ hstep, hnext.later hreading⟩

/-- What all beats of a course do that starts on time after `i` instructions and `ticks` ticks. -/
theorem Course.onTime (hclock : Steady clock see time) (htimer : 0 < timerHz) {k : Int} {n : Nat}
    {s' : σ} {beats : List (Beat σ)} {result : EStateM.Result Failure Machine StopReason}
    (h : Course clock see ⟨1 / cpuHz, 1 / timerHz⟩ limit k n pace m s beats result s')
    (hstart : OnTime t₀ cpuHz timerHz i ticks pace (time s)) {j : Nat} {b : Beat σ}
    (hb : beats[j]? = some b) :
    ((ticks + ((beats.take (j + 1)).map Beat.due).sum : Nat) : Int) =
        ⌊(b.reading - t₀) * timerHz⌋ + 1 ∧
      t₀ + (i + j : Nat) / cpuHz ≤ time b.issue := by
  induction h generalizing i ticks j with
  | spent pace m s => cases hb
  | goesOn hdue hbeat _ _ ih =>
    obtain ⟨hticks, hissue, hnext⟩ := hstart.beat hclock htimer hdue hbeat
    cases j with
    | zero =>
      cases hb
      exact ⟨hticks, hissue⟩
    | succ j =>
      have hlater := ih (hnext.later (hclock.see _ _)) hb
      rwa [Nat.add_assoc, Nat.add_right_comm i 1 j] at hlater
  | ends hdue hbeat _ _ =>
    obtain ⟨hticks, hissue, -⟩ := hstart.beat hclock htimer hdue hbeat
    cases j with
    | zero =>
      cases hb
      exact ⟨hticks, hissue⟩
    | succ j => cases hb

end

/-- A paced run reads the clock once and takes its course from there. -/
theorem paced_eq_some_iff {periods : Periods ℚ} {limit : Nat} {budget : Int} {m : Machine}
    {s s' : σ} {result : EStateM.Result Failure Machine StopReason} :
    (paced clock see periods limit budget m).run s = (some result, s') ↔
      ∃ beats, Course clock see periods limit (budget + 1) budget.toNat
        ⟨(clock.now.run s).1, (clock.now.run s).1⟩ m (clock.now.run s).2 beats result s' :=
  pacedFrom_eq_some_iff

/-- With a clock that never goes back and sleeps long enough, a paced run keeps time, whatever its
exact rates are: those of a configuration, or any others. Every catch-up comes to an end, and so
does the run. However late a beat is, the ticks that have been made by then are those that its
reading asks for. The run is made of nothing but these ticks and one step a beat, so the runs of
single instructions tick no timer, and no instruction is started before its time. -/
theorem paced_keeps_time (hclock : Steady clock see time) (htimer : 0 < timerHz) (cpuHz : ℚ)
    (budget : Int) (m : Machine) (s : σ) :
    (∀ now next, ∃ limit₀ due nextTick, ∀ limit, limit₀ ≤ limit →
      catchUp (1 / timerHz) now limit 0 next = some (due, nextTick)) ∧
    (∃ limit₀ result s', ∀ limit, limit₀ ≤ limit →
      (paced clock see ⟨1 / cpuHz, 1 / timerHz⟩ limit budget m).run s = (some result, s')) ∧
    ∀ limit result s',
      (paced clock see ⟨1 / cpuHz, 1 / timerHz⟩ limit budget m).run s = (some result, s') →
        ∃ t₀ beats, t₀ = (clock.now.run s).1 ∧
          Course clock see ⟨1 / cpuHz, 1 / timerHz⟩ limit (budget + 1) budget.toNat ⟨t₀, t₀⟩ m
            (clock.now.run s).2 beats result s' ∧
          played beats m = result ∧
          beats.length ≤ budget.toNat ∧
          (beats.length = budget.toNat ∨ ∀ m', result ≠ .ok .timeout m') ∧
          ∀ i b, beats[i]? = some b →
            (((beats.take (i + 1)).map Beat.due).sum : Int) =
                ⌊(b.reading - t₀) * timerHz⌋ + 1 ∧
              t₀ + i / cpuHz ≤ time b.issue := by
  have hperiod : 0 < 1 / timerHz := one_div_pos.2 htimer
  refine ⟨fun now next => ?_, ?_, fun limit result s' h => ?_⟩
  · exact ⟨ticksDue (1 / timerHz) now next, _, _, fun limit hl =>
      (catchUp_eq hperiod limit 0).trans (if_pos hl)⟩
  · obtain ⟨limit₀, beats, result, s', hcourse⟩ :=
      exists_course clock see ⟨1 / cpuHz, 1 / timerHz⟩ hperiod (budget + 1) budget.toNat
        ⟨(clock.now.run s).1, (clock.now.run s).1⟩ m (clock.now.run s).2
    exact ⟨limit₀, result, s', fun limit hl => paced_eq_some_iff.2 ⟨beats, hcourse limit hl⟩⟩
  · obtain ⟨beats, hcourse⟩ := paced_eq_some_iff.1 h
    have hplayed := hcourse.played_eq fun hpos => by omega
    refine ⟨_, beats, rfl, hcourse, hplayed, hcourse.length_le, hcourse.length_eq_or,
      fun i b hb => ?_⟩
    have hstart := OnTime.start cpuHz htimer (hclock.now_le s)
    have hbeat := hcourse.onTime hclock htimer hstart hb
    rwa [Nat.zero_add, Nat.zero_add] at hbeat

end

/-- A clock that each reading takes some time. -/
def dragging (cost : ℚ) : Clock (StateM ℚ) ℚ where
  now := fun t => (t, t + cost)
  sleep d := fun t => ((), t + d)

theorem steady_dragging {cost : ℚ} (hcost : 0 ≤ cost) :
    Steady (dragging cost) (fun _ => pure ()) id :=
  .of_readings (fun _ => le_add_of_nonneg_right hcost) (fun _ _ _ => le_refl _) fun _ _ => le_refl _

/-- One instruction, for which the clock is a tenth of a second late. -/
def lateRun (m : Machine) : Option (EStateM.Result Failure Machine StopReason) × ℚ :=
  (paced (dragging (1 / 10)) (fun _ => pure ()) ⟨1 / m.config.cpuHz, 1 / m.config.timerHz⟩ 7 1
    m).run 0

theorem paced_keeps_time_late :
    ∃ m, m.Reachable ∧ Steady (dragging (1 / 10)) (fun _ => pure ()) id ∧
      m.config.timerHz = 60 ∧ 0 < (m.config.timerHz : ℚ) ∧
      ∃ (m' : Machine) (s' : ℚ) (b : Beat ℚ), lateRun m = (some (.ok .timeout m'), s') ∧
        b.reading = 1 / 10 ∧ b.due = 7 ∧ played [b] m = .ok .timeout m' := by
  obtain ⟨m, hm, hp⟩ := Machine.exists_reachable {} [.load idling none]
    (fun m => decide (m.config.timerHz = 60) &&
      decide ((lateRun m).1.bind Machine.reason? = some .timeout)) (by decide) (by decide +kernel)
  obtain ⟨hrate, hends⟩ := Bool.and_eq_true_iff.1 hp
  have hsteady := steady_dragging (by norm_num : (0 : ℚ) ≤ 1 / 10)
  have hpos : 0 < (m.config.timerHz : ℚ) := by
    rw [of_decide_eq_true hrate]
    norm_num
  obtain ⟨result, hresult, hreason⟩ := Option.bind_eq_some_iff.1 (of_decide_eq_true hends)
  obtain ⟨m', rfl⟩ := Machine.exists_of_reason? hreason
  obtain ⟨-, -, hbeats⟩ := paced_keeps_time hsteady hpos m.config.cpuHz 1 m 0
  obtain ⟨t₀, beats, rfl, hcourse, hplayed, -, hlength, htimes⟩ :=
    hbeats 7 (.ok .timeout m') (lateRun m).2 (Prod.ext hresult rfl)
  obtain ⟨b, rfl⟩ := List.length_eq_one_iff.1 (hlength.resolve_right fun h => h m' rfl)
  have hreading : b.reading = 1 / 10 := hcourse.reading_eq.trans (zero_add _)
  have hdue := (htimes 0 b rfl).1
  have hticks : ⌊(b.reading - ((dragging (1 / 10)).now.run 0).1) * m.config.timerHz⌋ = 6 := by
    rw [hreading, of_decide_eq_true hrate]
    decide +kernel
  rw [hticks] at hdue
  refine ⟨m, hm, hsteady, of_decide_eq_true hrate, hpos, m', (lateRun m).2, b,
    Prod.ext hresult rfl, hreading, ?_, hplayed⟩
  exact_mod_cast hdue

end Chip8.Pacing
