import Chip8.CommandLine.Program
import Chip8.Proofs.Session
import Chip8.Proofs.Simulation

/-!
# Paced and plain runs

A paced run is a chain of runs of one instruction each, so it never looks at a breakpoint, and
its clock touches nothing but the timers. `pacedFrom_agree` follows it alongside a plain run for
as long as the plain run meets no breakpoint.
-/

namespace Chip8.Pacing

variable {σ τ : Type} [Add τ] [Sub τ] [LE τ] [LT τ] [DecidableLE τ] [DecidableLT τ]

def afterTicks (n : Nat) (m : Machine) : Machine :=
  { m with timers := Nat.repeat Timers.tick n m.timers }

/-- The world in which an instruction is started: the clock has been read, and slept if it showed
that the instruction is not due yet. -/
def awaited (clock : Clock (StateM σ) τ) (nextStep : τ) (s : σ) : σ :=
  if (clock.now.run s).1 < nextStep then
    ((clock.sleep (nextStep - (clock.now.run s).1)).run (clock.now.run s).2).2
  else (clock.now.run s).2

section

variable {clock : Clock (StateM σ) τ} {see : Machine → StateM σ Unit} {periods : Periods τ}
  {limit : Nat} {k : Int} {pace : Pace τ} {m : Machine} {t t' : σ}

/-! ## One beat -/

theorem run_bind {α β : Type} (a : StateM σ α) (f : α → StateM σ β) (t : σ) :
    (a >>= f).run t = (f (a.run t).1).run (a.run t).2 := rfl

theorem beat_runaway
    (hc : catchUp periods.tick (clock.now.run t).1 limit 0 pace.nextTick = none) :
    (beat clock periods limit pace m).run t = (none, (clock.now.run t).2) := by
  unfold beat
  rw [run_bind, hc]
  rfl

theorem beat_run {due : Nat} {nextTick : τ}
    (hc : catchUp periods.tick (clock.now.run t).1 limit 0 pace.nextTick = some (due, nextTick)) :
    (beat clock periods limit pace m).run t =
      (some (⟨pace.nextStep + periods.step, nextTick⟩, afterTicks due m),
        awaited clock pace.nextStep t) := by
  unfold beat awaited
  rw [run_bind, hc]
  by_cases hs : (clock.now.run t).1 < pace.nextStep
  · simp only [if_pos hs, run_bind]
    rfl
  · simp only [if_neg hs]
    rfl

/-- A beat that makes up for all ticks changes only the timers. -/
theorem beat_eq_some {pace' : Pace τ} {m' : Machine}
    (h : (beat clock periods limit pace m).run t = (some (pace', m'), t')) :
    ∃ ts, m' = { m with timers := ts } := by
  cases hc : catchUp periods.tick (clock.now.run t).1 limit 0 pace.nextTick with
  | none =>
    rw [beat_runaway hc] at h
    cases h
  | some p =>
    rw [beat_run hc] at h
    cases h
    exact ⟨_, rfl⟩

/-! ## One instruction -/

/-- A paced run that ends has carried out its next instruction as a run of its own, on a machine
with other timers, and has either ended with it or gone on. -/
theorem pacedFrom_succ {n : Nat} {res : EStateM.Result Failure Machine StopReason}
    (h : (pacedFrom clock see periods limit k (n + 1) pace m).run t = (some res, t')) :
    ∃ ts, (∃ pace' t₁ m', Machine.run 1 (some k) { m with timers := ts } = .ok .timeout m' ∧
        (pacedFrom clock see periods limit k n pace' m').run t₁ = (some res, t')) ∨
      (Machine.run 1 (some k) { m with timers := ts } = res ∧ ∀ m', res ≠ .ok .timeout m') := by
  unfold pacedFrom at h
  rw [run_bind] at h
  cases hb : (beat clock periods limit pace m).run t with
  | mk next t₁ =>
    rw [hb] at h
    cases next with
    | none => cases h
    | some p =>
      obtain ⟨ts, hts⟩ := beat_eq_some hb
      refine ⟨ts, ?_⟩
      simp only [run_bind] at h
      rw [hts] at h
      cases hr : Machine.run 1 (some k) { m with timers := ts } with
      | ok r m' =>
        rw [hr] at h
        cases r with
        | timeout => exact .inl ⟨p.1, _, m', rfl, h⟩
        | breakpoint => cases h; exact .inr ⟨rfl, fun _ => nofun⟩
        | illegal => cases h; exact .inr ⟨rfl, fun _ => nofun⟩
        | error => cases h; exact .inr ⟨rfl, fun _ => nofun⟩
      | error e m' =>
        rw [hr] at h
        cases h
        exact .inr ⟨rfl, fun _ => nofun⟩

/-! ## Whole runs -/

/-- A paced run alongside a plain run that meets no breakpoint. The two machines are alike and
no fault is recorded before each instruction, whose counter in the plain run is `done`. -/
theorem pacedFrom_agree {c : Int} (hc : c ≠ 0) {n done : Nat} (hk : 0 < n → 1 < k)
    {m p : Machine} (hmp : Machine.Alike m p) (hm : m.lastFault = none) (hp : p.lastFault = none)
    (hi : ∀ i ∈ Machine.issuedFrom c n done m, ¬ i.ReadsTimer)
    {r : StopReason} {m₁ : Machine} (hrun : Machine.runFrom c n done m = .ok r m₁)
    (hr : r ≠ .breakpoint) {res : EStateM.Result Failure Machine StopReason}
    (hpaced : (pacedFrom clock see periods limit k n pace p).run t = (some res, t')) :
    ∃ m₂, res = .ok r m₂ ∧ Machine.Alike m₁ m₂ ∧ m₁.lastFault = m₂.lastFault := by
  induction n generalizing done m p pace t with
  | zero =>
    cases hrun
    cases hpaced
    exact ⟨p, rfl, hmp, hm.trans hp.symm⟩
  | succ n ih =>
    rw [Machine.runFrom_succ hc] at hrun
    by_cases hb : done ≠ 0 ∧ m.atBreakpoint
    · rw [if_pos hb] at hrun
      cases hrun
      exact absurd rfl hr
    · rw [if_neg hb] at hrun
      obtain ⟨ts, hnext⟩ := pacedFrom_succ hpaced
      rw [Machine.run_one (hk n.succ_pos)] at hnext
      have hq : Machine.Alike m { p with timers := ts, lastFault := none } := { hmp with }
      have hstep := Machine.step_agree hq fun i hf =>
        hi i (Machine.fetched_mem_issuedFrom hb hf)
      rcases hstep.ok_or_error with ⟨i, m', p', hsm, hsp, h'⟩ | ⟨e, m', p', hsm, hsp, h'⟩
      · rw [hsm] at hrun
        rw [hsp] at hnext
        rcases hnext with ⟨pace', t₁, p'', hp'', hrest⟩ | ⟨hres, hne⟩
        · cases hp''
          refine ih (fun _ => hk n.succ_pos) h'.ticked ?_ ?_ (fun j hj => hi j ?_) hrun hrest
          · rw [Machine.lastFault_ticked, Machine.lastFault_of_step hsm, hm]
          · exact Machine.lastFault_of_step hsp
          · rw [Machine.issuedFrom_of_ok hc hb hsm]
            exact List.mem_cons_of_mem i hj
        · exact absurd hres.symm (hne p')
      · rw [hsm] at hrun
        rw [hsp] at hnext
        cases e with
        | misuse u => cases hrun
        | fault f =>
          cases hrun
          rcases hnext with ⟨pace', t₁, p'', hp'', hrest⟩ | ⟨hres, hne⟩
          · have hreason := Option.some.inj (congrArg Machine.reason? hp'')
            exact absurd hreason (Machine.ofFault_ne_timeout f)
          · exact ⟨_, hres.symm, { h' with }, rfl⟩

theorem pacedFrom_ne_breakpoint {n : Nat} (hk : 0 < n → 1 < k)
    {res : EStateM.Result Failure Machine StopReason}
    (h : (pacedFrom clock see periods limit k n pace m).run t = (some res, t')) :
    Machine.reason? res ≠ some .breakpoint := by
  induction n generalizing m pace t with
  | zero => cases h; nofun
  | succ n ih =>
    obtain ⟨ts, ⟨pace', t₁, m', -, hrest⟩ | ⟨hres, -⟩⟩ := pacedFrom_succ h
    · exact ih (fun _ => hk n.succ_pos) hrest
    · rw [← hres, Machine.run_one (hk n.succ_pos)]
      cases Machine.step { m with timers := ts, lastFault := none } with
      | ok i m' => nofun
      | error e m' =>
        cases e with
        | misuse u => nofun
        | fault f => exact fun he => Machine.ofFault_ne_breakpoint f (Option.some.inj he)

end

/-! ## The command line -/

/-- What the program makes of a paced run; there is no result if the clock has run away. -/
def outcome (res? : Option (EStateM.Result Failure Machine StopReason)) :
    Except CommandLine.Abort (EStateM.Result Failure Machine StopReason) :=
  res?.elim (.error .runaway) .ok

/-- The program paces a run by the periods of its rates, which the clock has to be able to
express. -/
theorem executePaced_run (host : CommandLine.Host (StateM σ)) (ch : CommandLine.Channels)
    {o : CommandLine.Options} (ho : .steps ∉ o.emptied) (m : Machine) (t : σ) :
    (CommandLine.executePaced host ch o m).run.run t =
      if CommandLine.rateLimit ≤ m.config.cpuHz ∨ CommandLine.rateLimit ≤ m.config.timerHz then
        (.error .rateTooHigh, t)
      else Prod.map outcome id
        ((paced host.clock (fun m => (m.journal 1 (some (o.steps + 1))).forM (ch.tell host))
          (CommandLine.periods m.config) CommandLine.tickLimit o.steps m).run t) := by
  unfold CommandLine.executePaced
  by_cases h : CommandLine.rateLimit ≤ m.config.cpuHz ∨ CommandLine.rateLimit ≤ m.config.timerHz
  · rw [if_pos h, if_pos h]
    rfl
  · rw [if_neg h, if_neg h, if_neg ho]
    simp only [ExceptT.run_bind, ExceptT.run_lift, bind_map_left, run_bind]
    generalize (paced host.clock _ _ _ _ m).run t = q
    obtain ⟨res?, t₁⟩ := q
    cases res? <;> rfl

/-! ## Agreement -/

/-- When a paced run ends, it has ended like the plain run from the same state, with the same
reason and the same fault, in a machine alike, if and only if the plain run is not stopped by a
breakpoint. Neither may meet an instruction that reads a timer. From the command line there is no
paced run at all if a rate is more than the clock can express. -/
theorem paced_agrees_iff {m : Machine} (hm : m.Reachable) (hf : m.lastFault = none)
    (budget : Int) (hi : ∀ i ∈ m.issued budget none, ¬ i.ReadsTimer) :
    ∃ r m₁, Machine.run budget none m = .ok r m₁ ∧
      (∀ (clock : Clock (StateM σ) τ) (see : Machine → StateM σ Unit) (periods : Periods τ)
        (limit : Nat) (t t' : σ) (res : EStateM.Result Failure Machine StopReason),
        (paced clock see periods limit budget m).run t = (some res, t') →
        ((∃ m₂, res = .ok r m₂ ∧ Machine.Alike m₁ m₂ ∧ m₁.lastFault = m₂.lastFault) ↔
          r ≠ .breakpoint)) ∧
      ∀ (host : CommandLine.Host (StateM σ)) (ch : CommandLine.Channels)
        (o : CommandLine.Options), .steps ∉ o.emptied → o.steps = budget → ∃ see, ∀ t,
        (CommandLine.executePaced host ch o m).run.run t =
          if CommandLine.rateLimit ≤ m.config.cpuHz ∨ CommandLine.rateLimit ≤ m.config.timerHz
          then (.error .rateTooHigh, t)
          else Prod.map outcome id ((paced host.clock see (CommandLine.periods m.config)
            CommandLine.tickLimit budget m).run t) := by
  have hc := hm.cadence_pos
  obtain ⟨r, m₁, hrun⟩ := Machine.run_ok (Int.ne_of_gt hc) budget
  refine ⟨r, m₁, hrun, ?_, ?_⟩
  · intro clock see periods limit t t' res hpaced
    have hclear : { m with lastFault := none } = m := by rw [← hf]
    have hplain : Machine.runFrom m.config.cadence budget.toNat 0 m = .ok r m₁ := by
      rw [← hclear]
      exact hrun
    have hk : 0 < budget.toNat → 1 < budget + 1 := fun h => by omega
    constructor
    · rintro ⟨m₂, rfl, -, -⟩ rfl
      exact pacedFrom_ne_breakpoint hk hpaced rfl
    · intro hr
      exact pacedFrom_agree (Int.ne_of_gt hc) hk (.refl m) hf hf hi hplain hr hpaced
  · intro host ch o ho hsteps
    subst hsteps
    exact ⟨_, executePaced_run host ch ho m⟩

/-- A clock that stands still. -/
def still : Clock (StateM Unit) Int where
  now := pure 0
  sleep _ := pure ()

/-- A paced run against a clock that stands still. -/
def stillRun (budget : Int) (m : Machine) :
    Option (EStateM.Result Failure Machine StopReason) × Unit :=
  (paced still (fun _ => pure ()) ⟨1, 10⟩ 1 budget m).run ()

/-- Instructions that read no timer end as `reason` in a plain run, and with the budget in a
paced one. -/
def endsPlainly (budget : Int) (reason : StopReason) (m : Machine) : Bool :=
  decide (m.lastFault = none) &&
    (m.issued budget none).all (fun i => i.opcode != .reg .getDelay) &&
    decide (Machine.reason? (Machine.run budget none m) = some reason) &&
    decide ((stillRun budget m).1.bind Machine.reason? = some .timeout)

theorem of_endsPlainly {budget : Int} {reason : StopReason} {m : Machine}
    (h : endsPlainly budget reason m = true) :
    m.lastFault = none ∧ (∀ i ∈ m.issued budget none, ¬ i.ReadsTimer) ∧
      (∃ m₁, Machine.run budget none m = .ok reason m₁) ∧
      ∃ m₂, stillRun budget m = (some (.ok .timeout m₂), ()) := by
  unfold endsPlainly at h
  simp only [Bool.and_eq_true, decide_eq_true_eq, List.all_eq_true, bne_iff_ne] at h
  obtain ⟨⟨⟨hf, hi⟩, hr⟩, hs⟩ := h
  refine ⟨hf, ?_, Machine.exists_of_reason? hr, ?_⟩
  · rintro i hmem ⟨x, rfl⟩
    exact hi _ hmem rfl
  · obtain ⟨res, hres, ht⟩ := Option.bind_eq_some_iff.1 hs
    obtain ⟨m₂, rfl⟩ := Machine.exists_of_reason? ht
    exact ⟨m₂, Prod.ext hres rfl⟩

/-- A program that sets a register and then jumps to where it is. -/
def idling : List UInt8 :=
  [0x60, 0x01, 0x12, 0x02]

theorem paced_agrees_iff_idling :
    ∃ m, m.Reachable ∧ m.lastFault = none ∧ (∀ i ∈ m.issued 2 none, ¬ i.ReadsTimer) ∧
      ∃ m₁ m₂, Machine.run 2 none m = .ok .timeout m₁ ∧
        stillRun 2 m = (some (.ok .timeout m₂), ()) ∧ Machine.Alike m₁ m₂ := by
  obtain ⟨m, hm, hp⟩ := Machine.exists_reachable {} [.load idling none] (endsPlainly 2 .timeout)
    (by decide) (by decide +kernel)
  obtain ⟨hf, hi, ⟨m₁, hrun⟩, m₂, hs⟩ := of_endsPlainly hp
  obtain ⟨r, m₁', hr, hagree, -⟩ := paced_agrees_iff (σ := Unit) (τ := Int) hm hf 2 hi
  rw [hrun] at hr
  cases hr
  obtain ⟨m₂', hres, halike, -⟩ := (hagree still _ ⟨1, 10⟩ 1 () () _ hs).2 nofun
  cases hres
  exact ⟨m, hm, hf, hi, m₁, m₂, hrun, hs, halike⟩

/-- The plain run stops at the breakpoint, the paced run goes through it. -/
theorem paced_passes_breakpoint :
    ∃ m, m.Reachable ∧ m.lastFault = none ∧ (∀ i ∈ m.issued 10 none, ¬ i.ReadsTimer) ∧
      (∃ m₁, Machine.run 10 none m = .ok .breakpoint m₁) ∧
      ∃ m₂, stillRun 10 m = (some (.ok .timeout m₂), ()) := by
  obtain ⟨m, hm, hp⟩ := Machine.exists_reachable {} [.load idling none, .addBreakpoint 0x202]
    (endsPlainly 10 .breakpoint) (by decide) (by decide +kernel)
  exact ⟨m, hm, of_endsPlainly hp⟩

end Chip8.Pacing
