import Chip8.Proofs.Cadence
import Chip8.Proofs.Control
import Chip8.Proofs.Decoding
import Chip8.Proofs.Keys
import Chip8.Proofs.Repetition

/-!
# Waiting for a key

While no key is held, the instruction that waits for one puts the counter back on itself, so that a
step from a `Waiting` machine leads back to it (`Waiting.step`). A run of such a machine is nothing
but time that passes for the timers (`WaitsOut`). The first step after a key is pressed stores its
number, or fails and can only fail again.
-/

namespace Chip8

/-- A counter that has moved on by 2 is put back by 2. -/
theorem Registers.setCounter_forth (r : Registers) :
    (r.setCounter (r.pc.toNat + 2)).setCounter
      ((r.setCounter (r.pc.toNat + 2)).pc.toNat - 2) = r := by
  have hback := Machine.ofInt_add_toNat_ofInt (r.pc.toNat + 2) (-2)
  rw [Int.add_neg_cancel_right, Word.ofInt_toNat] at hback
  exact congrArg (fun pc => { r with pc := pc }) hback

namespace Machine

variable {m : Machine} {x : Fin 16} {k : Key} {v : UInt8} {cadence : Int}

/-- The word at the counter is the instruction that waits for a key and puts it in register `x`. -/
def AwaitsKey (m : Machine) (x : Fin 16) : Prop :=
  m.memory.read16 m.registers.pc.toNat = .ok (0xF00A + 256 * x.val)

instance (m : Machine) (x : Fin 16) : Decidable (m.AwaitsKey x) :=
  inferInstanceAs (Decidable (_ = _))

/-- A machine that waits, with no key held. -/
structure Waiting (m : Machine) (x : Fin 16) : Prop where
  awaits : m.AwaitsKey x
  idle : m.keypad.held = none

/-! ## Steps -/

theorem AwaitsKey.fetched (h : m.AwaitsKey x) : m.fetched = .ok (.reg .waitKey x.val) := by
  have hword : ∀ x : Fin 16,
      Instr.ofWord? (0xF00A + 256 * x.val) = some (.reg .waitKey x.val) := by decide
  unfold Machine.fetched
  rw [h]
  simp only
  rw [Instr.decode_of_word (by omega), hword]
  rfl

theorem Waiting.step (h : m.Waiting x) :
    ∃ t, Machine.step m = .ok (.reg .waitKey x.val) { m with trace := t } := by
  have hheld : heldKey (m.launched (.reg .waitKey x.val)) = .ok none _ :=
    heldKey_of_nibble (Keypad.nibble_of_none h.idle)
  refine ⟨(m.launched (.reg .waitKey x.val)).trace, step_eq_ok_iff.2 ⟨h.awaits.fetched, ?_⟩⟩
  simp only [execute, executeReg, bind_apply, hheld, counter_apply, setCounter_apply]
  exact congrArg (fun r => EStateM.Result.ok () { m.launched (.reg .waitKey x.val) with
    registers := r }) m.registers.setCounter_forth

theorem AwaitsKey.step_of_names (h : m.AwaitsKey x) (hk : m.keypad.held = some k)
    (hv : k.Names v) : ∃ t, step m = .ok (.reg .waitKey x.val) { m with
      registers := { m.registers.set x v with pc := m.registers.pc + 2 }
      trace := t } := by
  have hheld : heldKey (m.launched (.reg .waitKey x.val)) = .ok (some v) _ :=
    heldKey_of_nibble (Keypad.nibble_of_names hk hv)
  have hpc : UInt16.ofInt (m.registers.pc.toNat + 2) = m.registers.pc + 2 :=
    Word.ofInt_toNat_add m.registers.pc 2
  refine ⟨(m.launched (.reg .waitKey x.val)).trace, step_eq_ok_iff.2 ⟨h.fetched, ?_⟩⟩
  simp only [execute, executeReg, bind_apply, hheld, setRegister_fin, Byte.ofInt_toNat]
  exact congrArg (fun pc => EStateM.Result.ok () { m.launched (.reg .waitKey x.val) with
    registers := { m.registers.set x v with pc := pc } }) hpc

/-- Put back, a machine that was just launched is as before. -/
theorem rewound_launched (m : Machine) (i : Instr) :
    m.rewound (m.launched i) = { m with trace := (m.launched i).trace } := by
  have hback : (m.registers.setCounter (m.registers.pc.toNat + 2)).setCounter m.registers.pc.toNat =
      m.registers :=
    congrArg (fun pc => { m.registers with pc := pc }) (Word.ofInt_toNat m.registers.pc)
  exact congrArg (fun r => { m.launched i with registers := r }) hback

theorem AwaitsKey.stuck (h : m.AwaitsKey x) (hk : m.keypad.held = some k) (hpad : ¬ k.OnPad) :
    m.Stuck (.invalidKey k) := by
  have hfails : Fails (m.launched (.reg .waitKey x.val)) (.reg .waitKey x.val)
      (.fault (.invalidKey k)) (m.launched (.reg .waitKey x.val)) :=
    .key .waitKey x k (by decide) hk (Key.value?_eq_none_iff.2 hpad)
  have hback := rewound_launched m (.reg .waitKey x.val)
  have hstuck := hfails.stuck (by rw [hback]; exact h.fetched)
  rw [hback] at hstuck
  exact hstuck.retraced m.trace

/-! ## Runs -/

/-- The first turn of what is left of a run, unless there is a breakpoint. -/
theorem Waiting.runFrom_succ (h : m.Waiting x) (hc : cadence ≠ 0) (budget done : Nat)
    (hb : ¬ (done ≠ 0 ∧ m.atBreakpoint)) :
    ∃ ts t, runFrom cadence (budget + 1) done m =
        runFrom cadence budget (done + 1) { m with timers := ts, trace := t } ∧
      completedFrom cadence (budget + 1) done m =
        .reg .waitKey x.val ::
          completedFrom cadence budget (done + 1) { m with timers := ts, trace := t } := by
  obtain ⟨t, hs⟩ := h.step
  obtain ⟨ts, hts⟩ : ∃ ts, ticked cadence done { m with trace := t } =
      { m with timers := ts, trace := t } := by
    unfold ticked
    split
    · exact ⟨m.timers.tick, rfl⟩
    · exact ⟨m.timers, rfl⟩
  refine ⟨ts, t, ?_, ?_⟩
  · rw [Machine.runFrom_succ hc, if_neg hb, hs, ← hts]
  · rw [completedFrom_succ hc, if_neg hb, hs, ← hts]

theorem Waiting.runFrom (h : m.Waiting x) (hc : cadence ≠ 0) (hb : m.atBreakpoint = false)
    (budget done : Nat) :
    ∃ ts t, Machine.runFrom cadence budget done m =
        .ok .timeout { m with timers := ts, trace := t } ∧
      completedFrom cadence budget done m = List.replicate budget (.reg .waitKey x.val) := by
  induction budget generalizing done m with
  | zero => exact ⟨m.timers, m.trace, rfl, rfl⟩
  | succ budget ih =>
    obtain ⟨ts, t, hrun, hcompleted⟩ :=
      h.runFrom_succ hc budget done fun hd => by rw [hb] at hd; exact nomatch hd.2
    obtain ⟨us, u, hrest, hreplicate⟩ :=
      ih (m := { m with timers := ts, trace := t }) ⟨h.awaits, h.idle⟩ hb (done + 1)
    exact ⟨us, u, hrun.trans hrest, by rw [hcompleted, hreplicate]; rfl⟩

/-- A run that has come to a breakpoint takes no more steps. -/
theorem runFrom_of_atBreakpoint (hc : cadence ≠ 0) {done : Nat} (hd : done ≠ 0) (budget : Nat)
    (hb : m.atBreakpoint) :
    Machine.runFrom cadence (budget + 1) done m = .ok .breakpoint m ∧
      completedFrom cadence (budget + 1) done m = [] := by
  rw [Machine.runFrom_succ hc, completedFrom_succ hc, if_pos ⟨hd, hb⟩, if_pos ⟨hd, hb⟩]
  exact ⟨rfl, rfl⟩

/-- A run of `budget` turns ends for `reason` after it has executed just the waiting instruction,
`count` times. It leaves all but the last fault, which is none, the trace and the timers as it was;
these have gone down once for every time that the cadence goes into `count`. -/
def WaitsOut (m : Machine) (x : Fin 16) (budget : Int) (cadence? : Option Int)
    (reason : StopReason) (count : Nat) : Prop :=
  ∃ ts t, run budget cadence? m =
      .ok reason { m with timers := ts, lastFault := none, trace := t } ∧
    m.completed budget cadence? = List.replicate count (.reg .waitKey x.val) ∧
    ∀ timer : Timer, timer.value ts =
      timer.value m.timers - count / (cadence?.getD m.config.cadence).natAbs

theorem waitsOut_of_runFrom {cadence? : Option Int} {n count : Nat} {reason : StopReason}
    {ts : Timers} {t : Array TraceEntry} (hc : cadence?.getD m.config.cadence ≠ 0)
    (hrun : Machine.runFrom (cadence?.getD m.config.cadence) n 0 (m.blame none) =
      .ok reason { m.blame none with timers := ts, trace := t })
    (hcompleted : completedFrom (cadence?.getD m.config.cadence) n 0 (m.blame none) =
      List.replicate count (.reg .waitKey x.val)) :
    m.WaitsOut x n cadence? reason count := by
  refine ⟨ts, t, hrun, hcompleted, fun timer => ?_⟩
  have hvalue := value_of_runFrom (t := timer) hc hrun fun i hi => by
    rw [hcompleted] at hi
    rw [List.eq_of_mem_replicate hi]
    cases timer <;> exact nofun
  rw [hcompleted, List.length_replicate, Nat.zero_add, Nat.zero_div, Nat.sub_zero] at hvalue
  exact hvalue

theorem Waiting.waitsOut (h : m.Waiting x) (n : Nat) {cadence? : Option Int}
    (hc : cadence?.getD m.config.cadence ≠ 0) :
    if 2 ≤ n ∧ m.atBreakpoint then m.WaitsOut x n cadence? .breakpoint 1
    else m.WaitsOut x n cadence? .timeout n := by
  have hblame : (m.blame none).Waiting x := ⟨h.awaits, h.idle⟩
  cases hb : m.atBreakpoint with
  | false =>
    rw [if_neg fun hd => nomatch hd.2]
    obtain ⟨ts, t, hrun, hcompleted⟩ := hblame.runFrom hc hb n 0
    exact waitsOut_of_runFrom hc hrun hcompleted
  | true =>
    -- The first turn does not look at the breakpoint, and the second one stops there.
    cases n with
    | zero =>
      have hnone : Machine.runFrom (cadence?.getD m.config.cadence) 0 0 (m.blame none) =
          .ok .timeout { m.blame none with timers := m.timers, trace := m.trace } := rfl
      exact waitsOut_of_runFrom hc hnone rfl
    | succ rest =>
      obtain ⟨ts, t, hrun, hcompleted⟩ :=
        hblame.runFrom_succ hc rest 0 fun hd => hd.1 rfl
      cases rest with
      | zero => exact waitsOut_of_runFrom hc hrun hcompleted
      | succ rest =>
        rw [if_pos ⟨by omega, rfl⟩]
        obtain ⟨hstop, hnone⟩ := runFrom_of_atBreakpoint hc Nat.one_ne_zero rest
          (m := { m.blame none with timers := ts, trace := t }) hb
        exact waitsOut_of_runFrom hc (hrun.trans hstop) (hcompleted.trans (congrArg _ hnone))

/-- The word at the counter lies in memory, so that there is an address behind it. -/
theorem AwaitsKey.counter (h : m.AwaitsKey x) (hm : m.Reachable) :
    (m.registers.pc + 2).toNat = m.registers.pc.toNat + 2 := by
  have hlt := counter_lt_of_fetched h.fetched
  have hle := hm.memory_le
  unfold Config.maxMemory at hle
  rw [UInt16.toNat_add]
  show (m.registers.pc.toNat + 2) % 65536 = _
  omega

/-- Waiting for a key stands still. While no key is held, a step with the waiting instruction at the
counter executes it and changes nothing but the trace. So a run of `n` turns, by whatever cadence
but 0, is over with nothing done but `n` times this; only where there is a breakpoint, and the run
would come to it again, it stops after the first time. What it changes is the trace, the last fault,
which is none then, and the timers, which go down by the cadence. As soon as something is held, the
next step stores its number in the register and leads to the next instruction, if it is a digit in
either case. If it is not, the step fails and changes nothing but the trace, and so does every run
that takes a step. -/
theorem waiting_stands_still (hm : m.Reachable) (h : m.AwaitsKey x) :
    (m.keypad.held = none →
      (∃ t, step m = .ok (.reg .waitKey x.val) { m with trace := t }) ∧
      ∀ (n : Nat) (cadence? : Option Int), cadence?.getD m.config.cadence ≠ 0 →
        if 2 ≤ n ∧ m.atBreakpoint then m.WaitsOut x n cadence? .breakpoint 1
        else m.WaitsOut x n cadence? .timeout n) ∧
    ∀ k, m.keypad.held = some k →
      (∃ v, k.Names v ∧ (m.registers.pc + 2).toNat = m.registers.pc.toNat + 2 ∧
        ∃ t, step m = .ok (.reg .waitKey x.val) { m with
          registers := { m.registers.set x v with pc := m.registers.pc + 2 }
          trace := t }) ∨
      ¬ k.OnPad ∧ (∃ t, step m = .error (.fault (.invalidKey k)) { m with trace := t }) ∧
        ∀ (n : Nat) (cadence? : Option Int), 1 ≤ n → ∃ t, run n cadence? m =
          .ok .error { m with lastFault := some (.invalidKey k), trace := t } := by
  refine ⟨fun hidle => ?_, fun k hk => ?_⟩
  · have hwaiting : m.Waiting x := ⟨h, hidle⟩
    exact ⟨hwaiting.step, fun n cadence? hc => hwaiting.waitsOut n hc⟩
  · cases hv : k.value? with
    | some v =>
      have hnames := Key.value?_eq_some_iff.1 hv
      exact .inl ⟨v, hnames, h.counter hm, h.step_of_names hk hnames⟩
    | none =>
      have hpad := Key.value?_eq_none_iff.1 hv
      have hstuck := h.stuck hk hpad
      exact .inr ⟨hpad, hstuck.step, fun n cadence? hn => hstuck.run (by omega) cadence?⟩

/-- Waits for a key and stores it in register 5. -/
def asking : List UInt8 :=
  [0xF5, 0x0A]

/-- Seven turns with the cadence of -3 take 2 off a timer. With a breakpoint there is one turn only.
The key that is pressed after the seven turns is stored, and the empty text is no key. -/
theorem waiting_stands_still_asking :
    (∃ m n, m.Reachable ∧ m.AwaitsKey 5 ∧ Timer.delay.value m.timers = 9 ∧
      run 7 (some (-3)) m = .ok .timeout n ∧ n.registers = m.registers ∧
      Timer.delay.value n.timers = 7) ∧
    (∃ m n, m.Reachable ∧ m.AwaitsKey 5 ∧ run 7 none m = .ok .breakpoint n ∧
      (m.completed 7 none).length = 1) ∧
    (∃ m i n, m.Reachable ∧ m.AwaitsKey 5 ∧ step m = .ok i n ∧ n.registers.v.get 5 = 0xB ∧
      n.registers.pc = m.registers.pc + 2) ∧
    ∃ m n, m.Reachable ∧ m.AwaitsKey 5 ∧ run 7 none m = .ok .error n ∧
      n.lastFault = some (.invalidKey (.text "")) := by
  refine ⟨?_, ?_, ?_, ?_⟩
  · obtain ⟨m, hm, hcheck⟩ := exists_reachable small [.load asking none, .setDelay 9]
      (fun m => decide (m.AwaitsKey 5 ∧ m.keypad.held = none ∧ m.atBreakpoint = false ∧
        Timer.delay.value m.timers = 9))
      (by decide) (by decide +kernel)
    obtain ⟨h, hidle, hb, hdelay⟩ := of_decide_eq_true hcheck
    have hout := ((waiting_stands_still hm h).1 hidle).2 7 (some (-3))
      (by rw [Option.getD_some]; decide)
    rw [if_neg fun hd => by rw [hb] at hd; exact nomatch hd.2] at hout
    obtain ⟨ts, t, hrun, -, hticks⟩ := hout
    have hdown := hticks .delay
    rw [hdelay, Option.getD_some] at hdown
    exact ⟨m, _, hm, h, hdelay, hrun, rfl, hdown⟩
  · obtain ⟨m, hm, hcheck⟩ := exists_reachable small [.load asking none, .addBreakpoint 84]
      (fun m => decide (m.AwaitsKey 5 ∧ m.keypad.held = none ∧ m.atBreakpoint = true))
      (by decide) (by decide +kernel)
    obtain ⟨h, hidle, hb⟩ := of_decide_eq_true hcheck
    have hout := ((waiting_stands_still hm h).1 hidle).2 7 none (Int.ne_of_gt hm.cadence_pos)
    rw [if_pos ⟨by decide, hb⟩] at hout
    obtain ⟨ts, t, hrun, hcompleted, -⟩ := hout
    exact ⟨m, _, hm, h, hrun, congrArg List.length hcompleted⟩
  · obtain ⟨m, hm, hcheck⟩ := exists_reachable small
      [.load asking none, .run 7 (some (-3)), .press (some (.text "B"))]
      (fun m => decide (m.AwaitsKey 5 ∧ m.keypad.held = some (.text "B")))
      (by decide) (by decide +kernel)
    obtain ⟨h, hk⟩ := of_decide_eq_true hcheck
    have hnames : (Key.text "B").Names 0xB := ⟨'B', rfl, by decide⟩
    rcases (waiting_stands_still hm h).2 _ hk with ⟨v, hv, -, t, hstep⟩ | ⟨hpad, -⟩
    · refine ⟨m, _, _, hm, h, hstep, ?_, rfl⟩
      rw [hv.unique hnames]
      exact Vector.getElem_set_self _
    · exact absurd ⟨'B', by decide, rfl⟩ hpad
  · obtain ⟨m, hm, hcheck⟩ := exists_reachable small
      [.load asking none, .press (some (.text ""))]
      (fun m => decide (m.AwaitsKey 5 ∧ m.keypad.held = some (.text "")))
      (by decide) (by decide +kernel)
    obtain ⟨h, hk⟩ := of_decide_eq_true hcheck
    rcases (waiting_stands_still hm h).2 _ hk with ⟨v, hv, -⟩ | ⟨-, -, hruns⟩
    · cases Key.value?_eq_some_iff.2 hv
    · obtain ⟨t, hrun⟩ := hruns 7 none (by decide)
      exact ⟨m, _, hm, h, hrun, rfl⟩

end Machine

end Chip8
