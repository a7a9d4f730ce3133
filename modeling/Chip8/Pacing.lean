import Chip8.Machine.Run

/-!
# Paced runs

A run against a clock: one instruction per step period and one timer tick per
tick period. `beat` is what comes before each instruction. It reads the clock,
makes up for every tick whose time has come, and sleeps until the instruction is
due; both deadlines then move on by their own period, however late they were
met. Numbers are anything that adds, subtracts and compares, so that a run can
be timed in floating point and reasoned about in exact fractions.
-/

namespace Chip8

structure Clock (μ : Type → Type) (τ : Type) where
  now : μ τ
  sleep : τ → μ Unit

/-- The times between two instructions and between two ticks. -/
structure Periods (τ : Type) where
  step : τ
  tick : τ

/-- When the next instruction and the next tick are due. -/
structure Pace (τ : Type) where
  nextStep : τ
  nextTick : τ

namespace Pacing

variable {τ : Type} [Add τ] [Sub τ] [LE τ] [LT τ] [DecidableLE τ] [DecidableLT τ]

/--
The ticks due by `now` and the deadline of the next one. A clock that is further
ahead than `limit` ticks has run away, and the answer is none.
-/
def catchUp (period now : τ) : (limit due : Nat) → (next : τ) → Option (Nat × τ)
  | 0, due, next => if next ≤ now then none else some (due, next)
  | n + 1, due, next =>
    if next ≤ now then catchUp period now n (due + 1) (next + period) else some (due, next)

variable {μ : Type → Type} [Monad μ]

def beat (clock : Clock μ τ) (periods : Periods τ) (limit : Nat) (pace : Pace τ) (m : Machine) :
    μ (Option (Pace τ × Machine)) := do
  let now ← clock.now
  match catchUp periods.tick now limit 0 pace.nextTick with
  | none => return none
  | some (due, nextTick) =>
    if now < pace.nextStep then clock.sleep (pace.nextStep - now)
    return some (⟨pace.nextStep + periods.step, nextTick⟩,
      { m with timers := Nat.repeat Timers.tick due m.timers })

/-- Beats and single-instruction runs in turn; `see` is shown the machine before each run. -/
def pacedFrom (clock : Clock μ τ) (see : Machine → μ Unit) (periods : Periods τ) (limit : Nat)
    (cadence : Int) :
    (budget : Nat) → Pace τ → Machine → μ (Option (EStateM.Result Failure Machine StopReason))
  | 0, _, m => return some (.ok .timeout m)
  | n + 1, pace, m => do
    match ← beat clock periods limit pace m with
    | none => return none
    | some (pace, m) =>
      see m
      match Machine.run 1 (some cadence) m with
      | .ok .timeout m => pacedFrom clock see periods limit cadence n pace m
      | result => return some result

/-- A paced run; its single-instruction runs are too short to tick the timers themselves. -/
def paced (clock : Clock μ τ) (see : Machine → μ Unit) (periods : Periods τ) (limit : Nat)
    (budget : Int) (m : Machine) : μ (Option (EStateM.Result Failure Machine StopReason)) := do
  let start ← clock.now
  pacedFrom clock see periods limit (budget + 1) budget.toNat ⟨start, start⟩ m

end Pacing

end Chip8
