import Chip8.Proofs.Atomicity
import Chip8.Proofs.Reset
import Chip8.Proofs.Visits

/-!
# Failing again

A step that has failed fails in the same way when it is tried again. It may have stored or loaded
something before it failed, but to do so once more makes no difference (`Fails.again`); only a store
over the instruction itself can make another one of it. The machine that is left is `Stuck`: every
step from it fails like that, and every run of it stops at once.
-/

namespace Chip8

/-- The instructions that store bytes from the index register on. -/
def Instr.Stores : Instr → Prop
  | .reg op _ => op = .storeDecimal ∨ op = .dump
  | _ => False

/-- Runs that take a step at least, with whatever cadence. -/
def Command.RunsOn : Command → Prop
  | .run budget _ => 1 ≤ budget
  | _ => False

/-- A counter that is put back on an instruction comes past it again. -/
theorem Registers.setCounter_back {r : Registers} {pc : UInt16}
    (h : r.pc = UInt16.ofInt (pc.toNat + 2)) :
    (r.setCounter pc.toNat).setCounter ((r.setCounter pc.toNat).pc.toNat + 2) = r := by
  show { r with pc := UInt16.ofInt ((UInt16.ofInt pc.toNat).toNat + 2) } = r
  rw [Word.ofInt_toNat, ← h]

/-- Registers that are filled already may be filled again. -/
theorem Registers.fill_fill (r : Registers) (f : Nat → UInt8) (k stop : Nat) :
    (r.fill f k stop).fill f k stop = r.fill f k stop := by
  have hv : ((r.fill f k stop).fill f k stop).v = (r.fill f k stop).v := by
    refine Vector.ext fun j hj => ?_
    rw [← get_mk _ hj, ← get_mk _ hj, get_fill, get_fill]
    split <;> rfl
  unfold fill at hv ⊢
  exact congrArg (fun v => { r with v := v }) hv

namespace Machine

variable {m m' n : Machine} {i : Instr} {e : Failure} {f : Fault}

/-! ## The same failure again -/

@[simp] theorem registers_storeClipped (m : Machine) (bs : List UInt8) :
    (m.storeClipped bs).registers = m.registers := rfl

@[simp] theorem size_storeClipped (m : Machine) (bs : List UInt8) :
    (m.storeClipped bs).memory.size = m.memory.size :=
  Memory.size_place _ _ _

theorem storeClipped_storeClipped (m : Machine) (bs : List UInt8) :
    (m.storeClipped bs).storeClipped bs = m.storeClipped bs := by
  by_cases hle : m.memory.size ≤ m.registers.i.toNat
  · rw [storeClipped_of_le hle, storeClipped_of_le hle]
  · have hroom : m.registers.i.toNat +
        (bs.take (m.memory.size - m.registers.i.toNat)).length ≤ m.memory.size := by
      rw [List.length_take]
      omega
    unfold storeClipped
    simp only [Memory.size_place, Memory.place_place hroom]

theorem loadClipped_loadClipped (m : Machine) : m.loadClipped.loadClipped = m.loadClipped := by
  unfold loadClipped
  simp only [Registers.i_fill, Registers.fill_fill]

/-- An instruction that has failed once has nothing left to do before it fails. -/
theorem Fails.again (h : Fails m i e n) : Fails n i e n := by
  cases h with
  | underflow h => exact .underflow h
  | overflow nnn h => exact .overflow nnn h
  | key op s k hop hk hv => exact .key op s k hop hk hv
  | sprite s h => exact .sprite s h
  | draw s t n h => exact .draw s t n h
  | decimal s h =>
    obtain ⟨bs, hbs⟩ : ∃ bs, bs =
        (Arith.decimalDigits (m.registers.v.get s).toNat).map UInt8.ofInt := ⟨_, rfl⟩
    have hagain := Fails.decimal (m := m.storeClipped bs) s (by rw [size_storeClipped]; exact h)
    rw [registers_storeClipped, ← hbs, size_storeClipped, storeClipped_storeClipped] at hagain
    rwa [← hbs]
  | dump s h =>
    have hagain := Fails.dump (m := m.storeClipped m.registers.v.toList) s
      (by rw [size_storeClipped]; exact h)
    rwa [registers_storeClipped, size_storeClipped, storeClipped_storeClipped] at hagain
  | load s h =>
    have hindex := (sameAround_loadClipped m).index
    have hagain := Fails.load (m := m.loadClipped) s (by rw [memory_loadClipped, hindex]; exact h)
    rwa [memory_loadClipped, hindex, loadClipped_loadClipped] at hagain

/-! ## The same instruction again -/

theorem Fails.size (h : Fails m i e n) : n.memory.size = m.memory.size := by
  cases h with
  | decimal s _ => exact size_storeClipped _ _
  | dump s _ => exact size_storeClipped _ _
  | load s _ => rw [memory_loadClipped]
  | _ => rfl

theorem cell_storeClipped_of_lt (bs : List UInt8) {k : Nat} (hk : k < m.registers.i.toNat) :
    (m.storeClipped bs).memory.cell k = m.memory.cell k := by
  by_cases hle : m.memory.size ≤ m.registers.i.toNat
  · rw [storeClipped_of_le hle]
  · have hlen : (bs.take (m.memory.size - m.registers.i.toNat)).length ≤
        m.memory.size - m.registers.i.toNat := List.length_take_le _ _
    unfold storeClipped
    rw [Memory.cell_place _ _ _ _ (by omega), if_neg (by omega)]

/-- What an instruction has stored before it failed is not below the index register. -/
theorem Fails.cell (h : Fails m i e n) {k : Nat} (hk : i.Stores → k < m.registers.i.toNat) :
    n.memory.cell k = m.memory.cell k := by
  cases h with
  | decimal s _ => exact cell_storeClipped_of_lt _ (hk (.inl rfl))
  | dump s _ => exact cell_storeClipped_of_lt _ (hk (.inr rfl))
  | load s _ => rw [memory_loadClipped]
  | _ => rfl

/-- The instruction at the counter stores bytes, and the first cell for them is not above its own
two. -/
def StoresOverItself (m : Machine) : Prop :=
  ∃ i, m.fetched = .ok i ∧ i.Stores ∧ m.registers.i.toNat ≤ m.registers.pc.toNat + 1

theorem fetched_congr (hpc : n.registers.pc = m.registers.pc)
    (hsize : n.memory.size = m.memory.size)
    (hhigh : n.memory.cell m.registers.pc.toNat = m.memory.cell m.registers.pc.toNat)
    (hlow : n.memory.cell (m.registers.pc.toNat + 1) = m.memory.cell (m.registers.pc.toNat + 1)) :
    n.fetched = m.fetched := by
  have hnext : (m.registers.pc.toNat : Int) + 1 = (m.registers.pc.toNat + 1 : Nat) := rfl
  have hword : n.memory.read16 m.registers.pc.toNat = m.memory.read16 m.registers.pc.toNat := by
    unfold Memory.read16
    simp only [hnext, Memory.read8_natCast, Memory.outside, hsize, hhigh, hlow]
  unfold fetched
  rw [hpc, hword, hsize]

/-- What failed can be fetched again, unless it has stored over itself. -/
theorem Fails.fetched_rewound (h : Fails (m.launched i) i e n) (hf : m.fetched = .ok i)
    (hown : ¬ m.StoresOverItself) : (m.rewound n).fetched = .ok i := by
  have hbelow {k : Nat} (hk : k ≤ m.registers.pc.toNat + 1) (hi : i.Stores) :
      k < (m.launched i).registers.i.toNat := by
    by_contra hge
    exact hown ⟨i, hf, hi, Nat.le_trans (Nat.not_lt.1 hge) hk⟩
  rw [← hf]
  exact fetched_congr h.sameAround.rewound.counter h.size (h.cell (hbelow (Nat.le_succ _)))
    (h.cell (hbelow (Nat.le_refl _)))

/-! ## Stuck machines -/

/-- A step fails with `f` and changes nothing but the trace, whatever is in that. -/
def Stuck (m : Machine) (f : Fault) : Prop :=
  ∀ t, ∃ t', step { m with trace := t } = .error (.fault f) { m with trace := t' }

theorem Stuck.step (h : m.Stuck f) :
    ∃ t, Machine.step m = .error (.fault f) { m with trace := t } :=
  h m.trace

theorem Stuck.retraced (h : m.Stuck f) (t : Array TraceEntry) : { m with trace := t }.Stuck f :=
  h

theorem Stuck.blame (h : m.Stuck f) (g : Option Fault) : (m.blame g).Stuck f := by
  intro t
  obtain ⟨t', hstep⟩ := h t
  refine ⟨t', ?_⟩
  have hblame := step_blame g { m with trace := t }
  rw [hstep] at hblame
  exact hblame

theorem execute_retraced (h : execute i m = .error e m) (t : Array TraceEntry) :
    execute i { m with trace := t } = .error e { m with trace := t } := by
  have hdetached := Detached.execute i m ⟨m.breakpoints, m.tracing, t, m.lastFault⟩
  rw [h] at hdetached
  exact hdetached

/-- Launched once more, the machine is the one that the instruction has left. -/
theorem launched_rewound (h : n.registers.pc = (m.launched i).registers.pc) :
    ∃ t, (m.rewound n).launched i = { n with trace := t } := by
  have hregs := Registers.setCounter_back h
  exact ⟨_, congrArg (fun r => { (m.rewound n).launched i with registers := r }) hregs⟩

/-- The machine on which an instruction has failed is stuck, if it is still fetched. -/
theorem Fails.stuck (h : Fails (m.launched i) i (.fault f) n) (hf : (m.rewound n).fetched = .ok i) :
    (m.rewound n).Stuck f := by
  intro t
  obtain ⟨t', hlaunched⟩ := launched_rewound (n := { n with trace := t }) h.sameAround.counter
  have hfetch : (m.rewound { n with trace := t }).fetched = .ok i := hf
  have hcounter : (m.rewound { n with trace := t }).registers.pc = m.registers.pc :=
    h.sameAround.rewound.counter
  refine ⟨t', ?_⟩
  show step (m.rewound { n with trace := t }) = _
  rw [step_eq, hfetch]
  simp only
  rw [hlaunched, execute_retraced (execute_of_fails h.again)]
  show EStateM.Result.error _ ((m.rewound { n with trace := t }).rewound { n with trace := t' }) = _
  unfold rewound at hcounter ⊢
  rw [hcounter]

theorem stuck_of_step (h : step m = .error (.fault f) m') (hown : ¬ m.StoresOverItself) :
    m'.Stuck f := by
  rcases step_eq_fault_iff.1 h with ⟨hf, rfl⟩ | ⟨i, n, hf, hx, rfl⟩
  · refine fun t => ⟨t, ?_⟩
    have hfetch : ({ m' with trace := t } : Machine).fetched = .error (.fault f) := hf
    rw [step_eq, hfetch]
  · have hfails := fails_of_execute (fits_of_fetched hf) hx
    exact hfails.stuck (hfails.fetched_rewound hf hown)

/-! ## Runs -/

theorem Stuck.run (h : m.Stuck f) {budget : Int} (hb : 1 ≤ budget) (cadence? : Option Int) :
    ∃ t, Machine.run budget cadence? m = .ok (.ofFault f) { m.blame (some f) with trace := t } := by
  obtain ⟨t, hstep⟩ := (h.blame none).step
  refine ⟨t, ?_⟩
  obtain ⟨rest, hrest⟩ : ∃ rest, budget.toNat = rest + 1 := ⟨budget.toNat - 1, by omega⟩
  have hrun : Machine.run budget cadence? m =
      runFrom (cadence?.getD m.config.cadence) budget.toNat 0 (m.blame none) := rfl
  rw [hrun, hrest, runFrom_of_fault hstep]
  rfl

theorem replies_of_perform {c : Command} {r : Reply} (h : perform c m = .ok r n)
    (cs : List Command) : m.replies (c :: cs) = some r :: n.replies cs := by
  unfold replies
  rw [transcript, h]
  rfl

/-- All runs of a stuck machine stop at once, and for the same reason. -/
theorem Stuck.replies (h : m.Stuck f) (hlast : m.lastFault = some f) {cs : List Command}
    (hcs : ∀ c ∈ cs, c.RunsOn) :
    m.replies cs = cs.map (fun _ => some (.stopped (.ofFault f) (some f))) ∧
      ∃ t, m.session cs = { m with trace := t } := by
  induction cs generalizing m with
  | nil => exact ⟨rfl, m.trace, rfl⟩
  | cons c cs ih =>
    have hc := hcs c List.mem_cons_self
    cases c with
    | run budget cadence? =>
      obtain ⟨t, hrun⟩ := h.run hc cadence?
      have hsame : m.blame (some f) = m := by
        unfold Machine.blame
        rw [← hlast]
      rw [hsame] at hrun
      have hperform := perform_run_of_ok hrun
      rw [show ({ m with trace := t } : Machine).lastFault = some f from hlast] at hperform
      obtain ⟨hreplies, t', hsession⟩ :=
        ih (h.retraced t) hlast fun d hd => hcs d (List.mem_cons_of_mem _ hd)
      refine ⟨?_, t', ?_⟩
      · rw [replies_of_perform hperform, hreplies, List.map_cons]
      · show (after (perform (.run budget cadence?)) m).session cs = _
        rw [after_of_ok hperform, hsession]
    | _ => exact hc.elim

theorem step_of_turn {cadence : Int} {done : Nat} (h : turn cadence done m = .error (.fault f) n) :
    step m = .error (.fault f) n := by
  rcases bind_eq_error_iff.1 h with hs | ⟨i, o, -, hrest⟩
  · exact hs
  · split at hrest
    · cases hrest
    · split at hrest <;> cases hrest

/-- A run that does not end well ends with the step that failed. -/
theorem exists_fault_of_runFrom {cadence : Int} {budget done : Nat} {reason : StopReason}
    (h : runFrom cadence budget done m = .ok reason n) (hreason : reason.isClean = false) :
    ∃ s f s', (visitedFrom cadence budget done m).getLast? = some s ∧
      step s = .error (.fault f) s' ∧ n = s'.blame (some f) ∧ reason = .ofFault f := by
  induction budget generalizing done m with
  | zero =>
    cases h
    cases hreason
  | succ budget ih =>
    unfold runFrom at h
    unfold visitedFrom
    by_cases hb : done ≠ 0 ∧ m.atBreakpoint
    · rw [if_pos hb] at h
      cases h
      cases hreason
    · rw [if_neg hb] at h ⊢
      cases ht : turn cadence done m with
      | ok u next =>
        rw [ht] at h
        obtain ⟨s, f, s', hlast, hrest⟩ := ih h
        refine ⟨s, f, s', ?_, hrest⟩
        simp only
        rw [List.getLast?_cons, hlast]
        rfl
      | error e next =>
        rw [ht] at h
        cases e with
        | misuse u => cases h
        | fault f =>
          cases h
          exact ⟨m, f, next, rfl, step_of_turn ht, rfl, rfl⟩

/-- A failed step is repeatable. Tried again, it fails in the same way and changes nothing but the
trace; and after a run that was stopped by it, every run that takes a step stops for the same
reason, with the same last fault, and leaves the machine as it is, too. The exception is a step
whose instruction has stored over itself. -/
theorem failures_repeat (m : Machine) :
    (∀ e m', step m = .error e m' → ¬ m.StoresOverItself →
      ∃ t, step m' = .error e { m' with trace := t }) ∧
    ∀ budget cadence? reason n, run budget cadence? m = .ok reason n →
      reason = .illegal ∨ reason = .error →
      ∃ s f s', (m.visited (.run budget cadence?)).getLast? = some s ∧
        step s = .error (.fault f) s' ∧ n = s'.blame (some f) ∧
        (¬ s.StoresOverItself → ∀ cs : List Command, (∀ c ∈ cs, c.RunsOn) →
          n.replies cs = cs.map (fun _ => some (.stopped reason (some f))) ∧
          ∃ t, n.session cs = { n with trace := t }) := by
  refine ⟨fun e m' h hown => ?_, fun budget cadence? reason n h hreason => ?_⟩
  · rcases step_ok_or_fault m with ⟨i, o, hm⟩ | ⟨f, o, hm⟩
    · rw [hm] at h
      cases h
    · rw [hm] at h
      cases h
      exact (stuck_of_step hm hown).step
  · have hbad : reason.isClean = false := by rcases hreason with rfl | rfl <;> rfl
    obtain ⟨s, f, s', hlast, hs, rfl, rfl⟩ := exists_fault_of_runFrom h hbad
    exact ⟨s, f, s', hlast, hs, rfl, fun hown cs hcs =>
      ((stuck_of_step hs hown).blame (some f)).replies rfl hcs⟩

/-- A dump that fails makes another instruction of itself, and that one succeeds. -/
example : ({ usual with
      registers := ⟨#v[0x60, 1, 0, 0, 0, 0, 0, 0, 0, 0, 0, 0, 0, 0, 0, 0], 0, 0⟩
      memory := ⟨#[0xF4, 0x55, 0, 0]⟩ } : Machine).replies [.step, .step] =
    [none, some (.ran (.byte .load 0 1))] := by
  decide +kernel

/-- A dump of three registers to the last two cells of a memory of 96. -/
def dumping : List UInt8 :=
  [0xA0, 0x5E, 0xF2, 0x55]

/-- Two registers are stored before the first failure, and with the other failures once more. -/
theorem failures_repeat_dumping :
    ∃ m n, m.Reachable ∧ run 5 none m = .ok .error n ∧ n.registers.pc.toNat = 86 ∧
      n.memory.cell 94 = 0x11 ∧ n.memory.cell 95 = 0x22 ∧
      n.replies [.run 1 (some 0), .run 7 none] =
        [some (.stopped .error (some (.addressOutOfBounds 96 96))),
          some (.stopped .error (some (.addressOutOfBounds 96 96)))] ∧
      ∃ t, n.session [.run 1 (some 0), .run 7 none] = { n with trace := t } := by
  obtain ⟨m, hm, hcheck⟩ := exists_reachable small
    [.load dumping none, .setRegister 0 0x11, .setRegister 1 0x22]
    (fun m => decide (reason? (run 5 none m) = some .error ∧
      (∀ s ∈ (m.visited (.run 5 none)).getLast?,
        s.registers.i.toNat = 94 ∧ s.registers.pc.toNat = 86) ∧
      (after (run 5 none) m).lastFault = some (.addressOutOfBounds 96 96) ∧
      (after (run 5 none) m).registers.pc.toNat = 86 ∧
      (after (run 5 none) m).memory.cell 94 = 0x11 ∧
      (after (run 5 none) m).memory.cell 95 = 0x22))
    (by decide) (by decide +kernel)
  obtain ⟨hreason, hlast, hfault, hpc, hfirst, hsecond⟩ := of_decide_eq_true hcheck
  obtain ⟨n, hrun⟩ := exists_of_reason? hreason
  rw [after_of_ok hrun] at hfault hpc hfirst hsecond
  obtain ⟨s, f, s', hs, -, rfl, hagain⟩ := (failures_repeat m).2 5 none .error n hrun (.inr rfl)
  obtain ⟨hindex, hcounter⟩ := hlast s hs
  obtain rfl : f = .addressOutOfBounds 96 96 := Option.some.inj hfault
  have hown : ¬ s.StoresOverItself := by
    rintro ⟨i, -, -, hle⟩
    omega
  obtain ⟨hreplies, hsession⟩ := hagain hown [.run 1 (some 0), .run 7 none]
    (by simp [Command.RunsOn])
  exact ⟨m, _, hm, hrun, hpc, hfirst, hsecond, hreplies, hsession⟩

end Machine

end Chip8
