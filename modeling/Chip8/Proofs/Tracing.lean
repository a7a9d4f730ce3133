import Chip8.Proofs.Simulation

/-!
# Running with a trace and without

`Retraced m n` says that the two machines differ at most in the trace and in whether one is taken.
No run looks at either: the same run of both has the same outcome and leaves them so related
(`run_retraced`). `Alike` will not do here, since it lets the timers and the breakpoints differ, and
these decide what an instruction reads and where a run stops.
-/

namespace Chip8.Machine

/-- Equal but for the trace. -/
def Retraced (m n : Machine) : Prop :=
  ∃ on trace, n = { m with tracing := on, trace := trace }

variable {m n : Machine}

namespace Retraced

theorem setTracing (on on' : Bool) (m : Machine) :
    Retraced { m with tracing := on } { m with tracing := on' } :=
  ⟨on', m.trace, rfl⟩

theorem screen (h : Retraced m n) : n.screen = m.screen := by
  obtain ⟨_, _, rfl⟩ := h
  rfl

theorem registers (h : Retraced m n) : n.registers = m.registers := by
  obtain ⟨_, _, rfl⟩ := h
  rfl

theorem lastFault (h : Retraced m n) : n.lastFault = m.lastFault := by
  obtain ⟨_, _, rfl⟩ := h
  rfl

end Retraced

theorem coupled_retraced : Coupled (fun _ => True) Retraced where
  config := fun ⟨_, _, h⟩ => h ▸ rfl
  registers := Retraced.registers
  stack := fun ⟨_, _, h⟩ => h ▸ rfl
  screen := Retraced.screen
  random := fun ⟨_, _, h⟩ => h ▸ rfl
  keypad _ := fun ⟨_, _, h⟩ => h ▸ rfl
  delay _ := fun ⟨_, _, h⟩ => h ▸ rfl
  readCell _ := .readCell_of_eq fun ⟨_, _, h⟩ => h ▸ rfl
  writeCell _ := .writeCell_of_eq (fun ⟨_, _, h⟩ => h ▸ rfl) fun ⟨on, t, h⟩ _ => ⟨on, t, h ▸ rfl⟩
  setRegisters := fun ⟨on, t, h⟩ _ => ⟨on, t, h ▸ rfl⟩
  setStack := fun ⟨on, t, h⟩ _ => ⟨on, t, h ▸ rfl⟩
  setScreen := fun ⟨on, t, h⟩ _ => ⟨on, t, h ▸ rfl⟩
  setRandom := fun ⟨on, t, h⟩ _ => ⟨on, t, h ▸ rfl⟩
  mapTimers := fun ⟨on, t, h⟩ _ => ⟨on, t, h ▸ rfl⟩

/-! ## Steps, turns and runs -/

theorem step_retraced : Tracks Retraced step := by
  intro m n h
  refine coupled_retraced.step h ?_ fun i _ => ?_
  · obtain ⟨on, t, rfl⟩ := h
    rfl
  · refine coupled_retraced.execute (fun _ _ => trivial) _ _ ?_
    obtain ⟨on, t, rfl⟩ := h
    exact ⟨on, _, rfl⟩

theorem turn_retraced (cadence : Int) (done : Nat) : Tracks Retraced (turn cadence done) := by
  refine Tracks.bind step_retraced fun i => ?_
  by_cases hc : cadence = 0
  · rw [if_pos hc]
    exact fun _ _ h => .error _ h
  · rw [if_neg hc]
    by_cases hd : ((done : Int) + 1) % cadence = 0
    · rw [if_pos hd]
      exact .modify fun h => coupled_retraced.mapTimers h Timers.tick
    · rw [if_neg hd]
      exact .pure ()

theorem runFrom_retraced (cadence : Int) (budget done : Nat) :
    Tracks Retraced (runFrom cadence budget done) := by
  induction budget generalizing done with
  | zero => exact .pure _
  | succ budget ih =>
    intro m n h
    unfold runFrom
    have hstop : n.atBreakpoint = m.atBreakpoint := by
      obtain ⟨_, _, rfl⟩ := h
      rfl
    simp only [hstop]
    by_cases hb : done ≠ 0 ∧ m.atBreakpoint
    · rw [if_pos hb, if_pos hb]
      exact .ok _ h
    · rw [if_neg hb, if_neg hb]
      rcases turn_retraced cadence done m n h with
        ⟨_, m', n', hm, hn, h'⟩ | ⟨e, m', n', hm, hn, ⟨on, t, rfl⟩⟩
      · simp only [hm, hn]
        exact ih (done + 1) m' n' h'
      · simp only [hm, hn]
        cases e with
        | fault f => exact .ok _ ⟨on, t, rfl⟩
        | misuse u => exact .error _ ⟨on, t, rfl⟩

theorem run_retraced (budget : Int) (cadence? : Option Int) :
    Tracks Retraced (run budget cadence?) := by
  refine Tracks.bind (.modify fun ⟨on, t, h⟩ => ⟨on, t, h ▸ rfl⟩) fun _ => ?_
  exact Tracks.reading (fun h => coupled_retraced.config h)
    (fun c => runFrom (cadence?.getD c.cadence) budget.toNat 0) fun c => runFrom_retraced _ _ 0

end Chip8.Machine
