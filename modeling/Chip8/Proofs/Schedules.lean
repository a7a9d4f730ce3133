import Chip8.Proofs.Debugging
import Chip8.Proofs.Reset
import Chip8.Proofs.Simulation

/-!
# How a machine is driven

A machine can be driven by single steps and by runs, with ticks, breakpoints and key events in
between; `Executes m cs is n` says which instructions such a schedule executes. As long as no
instruction asks for what the schedule changes, they are those of a plain walk
(`Blind.walks_of_executes`), so that two schedules with as many instructions agree.
-/

namespace Chip8

/-- The instructions that ask for the held key. -/
def Instr.AsksKey (i : Instr) : Prop :=
  i.opcode ∈ [.reg .skipKey, .reg .skipNoKey, .reg .waitKey]

instance : DecidablePred Instr.AsksKey := fun i =>
  inferInstanceAs (Decidable (i.opcode ∈ [.reg .skipKey, .reg .skipNoKey, .reg .waitKey]))

theorem Opcode.heldKey_mem_primitives_iff (o : Opcode) :
    .heldKey ∈ o.primitives ↔ o ∈ [.reg .skipKey, .reg .skipNoKey, .reg .waitKey] := by
  rcases o with op | op | op | op | op | _ <;> first | (cases op <;> decide) | decide

theorem Instr.ne_heldKey_of_mem {i : Instr} (hi : ¬ i.AsksKey) {p : Primitive}
    (hp : p ∈ i.opcode.primitives) : p ≠ .heldKey := by
  rintro rfl
  exact hi (i.opcode.heldKey_mem_primitives_iff.1 hp)

def Command.IsKeyEvent : Command → Prop
  | .press _ => True
  | .release => True
  | _ => False

instance : DecidablePred Command.IsKeyEvent := fun d => by
  cases d <;> first | exact isTrue trivial | exact isFalse id

/-- Commands that execute nothing, and that a program can notice by its timers and keys only. -/
def Command.IsAside : Command → Prop
  | .tick => True
  | .addBreakpoint _ => True
  | .removeBreakpoint _ => True
  | .setTracing _ => True
  | .clearTrace => True
  | c => c.IsKeyEvent

instance : DecidablePred Command.IsAside := fun d => by
  cases d <;> first | exact isTrue trivial | exact isFalse id

namespace Machine

variable {m n o p : Machine} {i : Instr} {is js : List Instr} {cs ds : List Command}

/-! ## Schedules -/

/-- The schedule `cs` leads from `m` to `n`, and the instructions that it executes on the way, all
of them with success, are `is`. -/
inductive Executes : Machine → List Command → List Instr → Machine → Prop where
  | done (m : Machine) : Executes m [] [] m
  | step {m n o : Machine} {i : Instr} {is : List Instr} {cs : List Command}
      (hs : step m = .ok i n) (h : Executes n cs is o) : Executes m (.step :: cs) (i :: is) o
  | run {m n o : Machine} {budget : Int} {cadence? : Option Int} {reason : StopReason}
      {is : List Instr} {cs : List Command} (hr : run budget cadence? m = .ok reason n)
      (clean : reason.isClean = true) (h : Executes n cs is o) :
      Executes m (.run budget cadence? :: cs) (m.issued budget cadence? ++ is) o
  | aside {m o : Machine} {d : Command} {is : List Instr} {cs : List Command} (hd : d.IsAside)
      (h : Executes (after (perform d) m) cs is o) : Executes m (d :: cs) is o

/-- The instructions that a command executes, if that can be part of a schedule. -/
def executedBy (m : Machine) (d : Command) : Option (List Instr) :=
  if d.IsAside then some []
  else
    match d with
    | .step =>
      match step m with
      | .ok i _ => some [i]
      | .error _ _ => none
    | .run budget cadence? =>
      match run budget cadence? m with
      | .ok reason _ => if reason.isClean then some (m.issued budget cadence?) else none
      | .error _ _ => none
    | _ => none

def executed (m : Machine) : List Command → Option (List Instr)
  | [] => some []
  | d :: cs => do return (← m.executedBy d) ++ (← (after (perform d) m).executed cs)

theorem Executes.of_executedBy {d : Command} (hd : m.executedBy d = some is)
    (h : Executes (after (perform d) m) cs js o) : Executes m (d :: cs) (is ++ js) o := by
  unfold executedBy at hd
  by_cases haside : d.IsAside
  · rw [if_pos haside] at hd
    cases hd
    exact .aside haside h
  · rw [if_neg haside] at hd
    cases d with
    | step =>
      cases hs : Machine.step m with
      | ok i n =>
        rw [after_of_ok (perform_step_eq_ok_iff.2 ⟨i, rfl, hs⟩)] at h
        simp only [hs] at hd
        cases hd
        exact .step hs h
      | error e n =>
        simp only [hs] at hd
        cases hd
    | run budget cadence? =>
      cases hr : Machine.run budget cadence? m with
      | ok reason n =>
        rw [after_of_ok (perform_run_of_ok hr)] at h
        simp only [hr] at hd
        by_cases clean : reason.isClean = true
        · rw [if_pos clean] at hd
          cases hd
          exact .run hr clean h
        · rw [if_neg clean] at hd
          cases hd
      | error e n =>
        simp only [hr] at hd
        cases hd
    | _ => cases hd

theorem executes_of_executed (h : m.executed cs = some is) : Executes m cs is (m.session cs) := by
  induction cs generalizing m is with
  | nil =>
    cases h
    exact .done m
  | cons d cs ih =>
    obtain ⟨first, hfirst, h⟩ := Option.bind_eq_some_iff.1 h
    obtain ⟨rest, hrest, h⟩ := Option.bind_eq_some_iff.1 h
    cases h
    exact .of_executedBy hfirst (ih hrest)

/-- Steps and nothing else. -/
def Walks (m : Machine) (is : List Instr) (n : Machine) : Prop :=
  walk is.length m = (is, none, n)

theorem walks_cons_iff : Walks m (i :: is) o ↔ ∃ n, step m = .ok i n ∧ Walks n is o := by
  unfold Walks
  rw [List.length_cons, walk]
  cases hs : Machine.step m with
  | ok j n =>
    constructor
    · intro h
      obtain ⟨hlist, hrest⟩ := Prod.mk.inj h
      obtain ⟨rfl, htail⟩ := List.cons.inj hlist
      exact ⟨n, rfl, Prod.ext htail hrest⟩
    · rintro ⟨_, hn, h⟩
      cases hn
      simp only [h]
  | error e n =>
    constructor
    · nofun
    · rintro ⟨_, hn, -⟩
      cases hn

theorem Walks.append (h : Walks m is n) (h' : Walks n js o) : Walks m (is ++ js) o := by
  induction is generalizing m with
  | nil =>
    cases h
    exact h'
  | cons i is ih =>
    obtain ⟨m₁, hs, hrest⟩ := walks_cons_iff.1 h
    exact walks_cons_iff.2 ⟨m₁, hs, ih hrest⟩

/-- A walk is determined by its length. -/
theorem Walks.unique (h : Walks m is n) (h' : Walks m js o) (hl : is.length = js.length) :
    is = js ∧ n = o := by
  unfold Walks at h h'
  rw [hl, h'] at h
  obtain ⟨hinstrs, hend⟩ := Prod.mk.inj h
  exact ⟨hinstrs.symm, (Prod.mk.inj hend).2.symm⟩

/-! ## Runs -/

theorem turn_blame (f : Option Fault) (k : Int) (done : Nat) (m : Machine) :
    turn k done (m.blame f) = onState (blame f) (turn k done m) := by
  unfold turn
  rw [bind_apply, bind_apply, step_blame]
  cases step m with
  | error e n => rfl
  | ok i n =>
    by_cases hk : k = 0
    · simp only [onState, if_pos hk]
      rfl
    · simp only [onState, if_neg hk]
      split <;> rfl

theorem issuedFrom_blame (f : Option Fault) (k : Int) (budget done : Nat) (m : Machine) :
    issuedFrom k budget done (m.blame f) = issuedFrom k budget done m := by
  induction budget generalizing done m with
  | zero => rfl
  | succ budget ih =>
    have hbreak : (m.blame f).atBreakpoint = m.atBreakpoint := rfl
    have hfetch : (m.blame f).fetched = m.fetched := rfl
    rw [issuedFrom, issuedFrom, hbreak, hfetch, turn_blame]
    cases turn k done m with
    | ok u n => simp only [onState, ih]
    | error e n => rfl

theorem isClean_ofFault (f : Fault) : (StopReason.ofFault f).isClean = false := by
  unfold StopReason.ofFault
  split <;> rfl

/-- A run that ends well, and not at once, goes on after a step. -/
theorem exists_step_of_runFrom {k : Int} {budget done : Nat} {reason : StopReason}
    (hb : ¬ (done ≠ 0 ∧ m.atBreakpoint)) (hr : runFrom k (budget + 1) done m = .ok reason n)
    (clean : reason.isClean = true) : k ≠ 0 ∧ ∃ i o, step m = .ok i o ∧
      runFrom k budget (done + 1) (ticked k done o) = .ok reason n := by
  by_cases hk : k = 0
  · subst hk
    unfold runFrom at hr
    rw [if_neg hb] at hr
    cases ht : turn 0 done m with
    | ok u o =>
      obtain ⟨i, q, -, hzero⟩ := bind_eq_ok_iff.1 ht
      cases hzero
    | error e o =>
      rw [ht] at hr
      cases e with
      | fault f =>
        cases hr
        rw [isClean_ofFault] at clean
        cases clean
      | misuse u => cases hr
  · rw [runFrom_succ hk, if_neg hb] at hr
    cases hs : step m with
    | ok i o =>
      rw [hs] at hr
      exact ⟨hk, i, o, rfl, hr⟩
    | error e o =>
      rw [hs] at hr
      cases e with
      | fault f =>
        cases hr
        rw [isClean_ofFault] at clean
        cases clean
      | misuse u => cases hr

/-- An instruction that reads a timer does not fail. -/
theorem step_of_readsTimer (hf : m.fetched = .ok i) (hi : i.ReadsTimer) :
    ∃ n, step m = .ok i n := by
  obtain ⟨x, rfl⟩ := hi
  obtain ⟨s, rfl⟩ := (fits_of_fetched hf).reg
  exact ⟨_, step_eq_ok_iff.2 ⟨hf, setRegister_fin s _ _⟩⟩

/-! ## Blindness -/

/-- If one of the two fails, the other fails in the same way, and they leave related machines. -/
def SameFailure {α : Type} (R : Machine → Machine → Prop)
    (r r' : EStateM.Result Failure Machine α) : Prop :=
  ∀ e, (∀ m, r = .error e m → ∃ n, r' = .error e n ∧ R m n) ∧
    ∀ n, r' = .error e n → ∃ m, r = .error e m ∧ R m n

theorem sameFailure_of_ok {α : Type} {R : Machine → Machine → Prop} (x y : α) (m n : Machine) :
    SameFailure R (.ok x m) (.ok y n) := by
  intro e
  constructor
  · intro o ho
    cases ho
  · intro o ho
    cases ho

/-- Machines related by `R` cannot be told apart by instructions that are `ok`, and differ at most
in their timers, in what a debugger keeps and, where `keys` holds, in their keypads. -/
structure Blind (keys : Prop) (ok : Instr → Prop) (R : Machine → Machine → Prop) : Prop
    extends Equivalence R where
  timers : ∀ m t, R { m with timers := t } m
  debugger : ∀ m d, R (m.attach d) m
  keypad : keys → ∀ m k, R { m with keypad := k } m
  fetched : ∀ {m n}, R m n → m.fetched = n.fetched
  step : ∀ {m n}, R m n → (∀ i, m.fetched = .ok i → ok i) → SameOutcome R (step m) (step n)

namespace Blind

variable {keys : Prop} {ok : Instr → Prop} {R : Machine → Machine → Prop} (hR : Blind keys ok R)

include hR

theorem step_ok (h : R m p) (hs : Machine.step m = .ok i n) (hi : ok i) :
    ∃ q, Machine.step p = .ok i q ∧ R n q := by
  have hf := (step_eq_ok_iff.1 hs).1
  have hall : ∀ j, m.fetched = .ok j → ok j := by
    intro j hj
    rw [hf] at hj
    cases hj
    exact hi
  rcases hR.step h hall with ⟨x, a, b, ha, hb, hab⟩ | ⟨e, a, b, ha, hb, hab⟩
  · rw [hs] at ha
    cases ha
    exact ⟨b, hb, hab⟩
  · rw [hs] at ha
    cases ha

theorem ticked (k : Int) (done : Nat) (m : Machine) : R (ticked k done m) m := by
  unfold Machine.ticked
  split
  · exact hR.timers m _
  · exact hR.refl m

theorem aside {d : Command} (hd : d.IsAside) (hk : d.IsKeyEvent → keys) (m : Machine) :
    R (after (perform d) m) m := by
  cases d with
  | tick => exact hR.timers m _
  | addBreakpoint a =>
    exact hR.debugger m ⟨m.breakpoints.insert a, m.tracing, m.trace, m.lastFault⟩
  | removeBreakpoint a =>
    exact hR.debugger m ⟨m.breakpoints.filter (· ≠ a), m.tracing, m.trace, m.lastFault⟩
  | setTracing on => exact hR.debugger m ⟨m.breakpoints, on, m.trace, m.lastFault⟩
  | clearTrace => exact hR.debugger m ⟨m.breakpoints, m.tracing, #[], m.lastFault⟩
  | press | release => exact hR.keypad (hk trivial) m _
  | _ => exact hd.elim

/-- The instructions of a run that ends well are those of a walk. -/
theorem walks_of_runFrom {k : Int} {budget done : Nat} {reason : StopReason} (h : R m p)
    (hr : runFrom k budget done m = .ok reason n) (clean : reason.isClean = true)
    (hok : ∀ i ∈ issuedFrom k budget done m, ok i) :
    ∃ q, Walks p (issuedFrom k budget done m) q ∧ R n q := by
  induction budget generalizing done m p with
  | zero =>
    cases hr
    exact ⟨p, rfl, h⟩
  | succ budget ih =>
    by_cases hb : done ≠ 0 ∧ m.atBreakpoint
    · have hstop : runFrom k (budget + 1) done m = .ok .breakpoint m := by
        rw [runFrom]
        exact if_pos hb
      rw [hstop] at hr
      cases hr
      rw [issuedFrom, if_pos hb]
      exact ⟨p, rfl, h⟩
    · obtain ⟨hk, i, o, hs, hrest⟩ := exists_step_of_runFrom hb hr clean
      rw [issuedFrom_of_ok hk hb hs] at hok ⊢
      obtain ⟨q₁, hq₁, hoq⟩ := hR.step_ok h hs (hok i List.mem_cons_self)
      obtain ⟨q, hwalk, hnq⟩ := ih (hR.trans (hR.ticked k done o) hoq) hrest
        fun j hj => hok j (List.mem_cons_of_mem i hj)
      exact ⟨q, walks_cons_iff.2 ⟨q₁, hq₁, hwalk⟩, hnq⟩

/-- So are those of a schedule. -/
theorem walks_of_executes (hx : Executes m cs is n) (h : R m p) (hok : ∀ i ∈ is, ok i)
    (hkeys : ∀ d ∈ cs, d.IsKeyEvent → keys) : ∃ q, Walks p is q ∧ R n q := by
  induction hx generalizing p with
  | done m => exact ⟨p, rfl, h⟩
  | @step m n o i is cs hs _ ih =>
    obtain ⟨p₁, hp₁, hnp⟩ := hR.step_ok h hs (hok i List.mem_cons_self)
    obtain ⟨q, hwalk, hoq⟩ := ih hnp (fun j hj => hok j (List.mem_cons_of_mem i hj))
      fun d hd => hkeys d (List.mem_cons_of_mem _ hd)
    exact ⟨q, walks_cons_iff.2 ⟨p₁, hp₁, hwalk⟩, hoq⟩
  | @run m n o budget cadence? reason is cs hr clean _ ih =>
    -- The run starts by forgetting the last fault, which nothing looks at.
    have hblame : R (m.blame none) m :=
      hR.debugger m ⟨m.breakpoints, m.tracing, m.trace, none⟩
    have hissued : m.issued budget cadence? =
        issuedFrom (cadence?.getD m.config.cadence) budget.toNat 0 (m.blame none) :=
      (issuedFrom_blame none _ _ 0 m).symm
    obtain ⟨p₁, hfirst, hnp⟩ := hR.walks_of_runFrom (hR.trans hblame h) hr clean
      (by rw [← hissued]; exact fun j hj => hok j (List.mem_append_left is hj))
    rw [← hissued] at hfirst
    obtain ⟨q, hrest, hoq⟩ := ih hnp (fun j hj => hok j (List.mem_append_right _ hj))
      fun d hd => hkeys d (List.mem_cons_of_mem _ hd)
    exact ⟨q, hfirst.append hrest, hoq⟩
  | @aside m o d is cs hd _ ih =>
    have haside := hR.aside hd (hkeys d List.mem_cons_self) m
    exact ih (hR.trans haside h) hok fun d hd => hkeys d (List.mem_cons_of_mem _ hd)

/-- Two schedules that execute as many instructions execute the same. -/
theorem executes_agree {m' n' : Machine} (h : R m n) (hm : Executes m cs is m')
    (hn : Executes n ds js n') (hlen : is.length = js.length) (hok : ∀ i ∈ is ++ js, ok i)
    (hkeys : ∀ d ∈ cs ++ ds, d.IsKeyEvent → keys) : is = js ∧ R m' n' := by
  obtain ⟨p, hp, hmp⟩ := hR.walks_of_executes hm (hR.refl m)
    (fun i hi => hok i (List.mem_append_left js hi))
    fun d hd => hkeys d (List.mem_append_left ds hd)
  obtain ⟨q, hq, hnq⟩ := hR.walks_of_executes hn (hR.symm h)
    (fun i hi => hok i (List.mem_append_right is hi))
    fun d hd => hkeys d (List.mem_append_right cs hd)
  obtain ⟨rfl, rfl⟩ := hp.unique hq hlen
  exact ⟨rfl, hR.trans hmp (hR.symm hnq)⟩

/-- The next step fails on both or on none, also if it reads a timer. -/
theorem sameFailure (h : R m n) (hi : ∀ i, m.fetched = .ok i → ok i ∨ i.ReadsTimer) :
    SameFailure R (Machine.step m) (Machine.step n) := by
  by_cases hread : ∃ i, m.fetched = .ok i ∧ i.ReadsTimer
  · obtain ⟨i, hf, hi⟩ := hread
    obtain ⟨m₁, hm⟩ := step_of_readsTimer hf hi
    obtain ⟨n₁, hn⟩ := step_of_readsTimer ((hR.fetched h).symm.trans hf) hi
    rw [hm, hn]
    exact sameFailure_of_ok i i m₁ n₁
  · have hok : ∀ i, m.fetched = .ok i → ok i := fun i hf =>
      (hi i hf).resolve_right fun hr => hread ⟨i, hf, hr⟩
    rcases hR.step h hok with ⟨x, a, b, ha, hb, -⟩ | ⟨e, a, b, ha, hb, hab⟩
    · rw [ha, hb]
      exact sameFailure_of_ok x x a b
    · rw [ha, hb]
      intro e'
      constructor
      · intro o ho
        cases ho
        exact ⟨b, rfl, hab⟩
      · intro o ho
        cases ho
        exact ⟨a, rfl, hab⟩

end Blind

/-! ## Timers and keys -/

theorem Alike.symm (h : Alike m n) : Alike n m :=
  ⟨h.config.symm, h.registers.symm, h.memory.symm, h.stack.symm, h.screen.symm, h.keypad.symm,
    h.random.symm⟩

theorem Alike.trans (h : Alike m n) (h' : Alike n o) : Alike m o :=
  ⟨h.config.trans h'.config, h.registers.trans h'.registers, h.memory.trans h'.memory,
    h.stack.trans h'.stack, h.screen.trans h'.screen, h.keypad.trans h'.keypad,
    h.random.trans h'.random⟩

theorem blind_alike : Blind False (fun i => ¬ i.ReadsTimer) Alike where
  refl := Alike.refl
  symm := Alike.symm
  trans := Alike.trans
  timers _ _ := ⟨rfl, rfl, rfl, rfl, rfl, rfl, rfl⟩
  debugger _ _ := ⟨rfl, rfl, rfl, rfl, rfl, rfl, rfl⟩
  keypad := False.elim
  fetched := Alike.fetched
  step h hi := (step_agree h hi).ok_or_error

/-- The same machine with another keypad. -/
def keyed (k : Keypad) (m : Machine) : Machine :=
  { m with keypad := k }

theorem overlay_keyed (k : Keypad) : Overlay (· ≠ .heldKey) (keyed k) where
  config _ := rfl
  registers _ := rfl
  memory _ := rfl
  stack _ := rfl
  timers _ := rfl
  screen _ := rfl
  keypad h := absurd rfl h
  random _ := rfl
  setRegisters _ _ := rfl
  setMemory _ _ := rfl
  setStack _ _ := rfl
  setTimers _ _ := rfl
  setScreen _ _ := rfl
  setRandom _ _ := rfl

/-- Alike but for the keypad. -/
structure Akin (m n : Machine) : Prop where
  config : m.config = n.config
  registers : m.registers = n.registers
  memory : m.memory = n.memory
  stack : m.stack = n.stack
  screen : m.screen = n.screen
  random : m.random = n.random

theorem Akin.alike (h : Akin m n) : Alike m (n.keyed m.keypad) :=
  ⟨h.config, h.registers, h.memory, h.stack, h.screen, rfl, h.random⟩

theorem Alike.akin {k : Keypad} (h : Alike m (n.keyed k)) : Akin m n :=
  ⟨h.config, h.registers, h.memory, h.stack, h.screen, h.random⟩

theorem Akin.step (h : Akin m n) (hi : ∀ i, m.fetched = .ok i → ¬ i.ReadsTimer ∧ ¬ i.AsksKey) :
    SameOutcome Akin (step m) (step n) := by
  have hfetch : n.fetched = m.fetched := h.alike.fetched.symm
  have hagree := step_agree h.alike fun i hf => (hi i hf).1
  rw [(overlay_keyed m.keypad).step (fun _ _ => rfl) fun i hf p hp =>
    Instr.ne_heldKey_of_mem (hi i (hfetch ▸ hf)).2 hp] at hagree
  cases hn : Machine.step n with
  | ok x n₁ =>
    rw [hn] at hagree
    rcases hagree.ok_or_error with ⟨y, a, b, ha, hb, hab⟩ | ⟨e, a, b, -, hb, -⟩
    · cases hb
      exact .inl ⟨x, a, n₁, ha, rfl, hab.akin⟩
    · cases hb
  | error e n₁ =>
    rw [hn] at hagree
    rcases hagree.ok_or_error with ⟨y, a, b, -, hb, -⟩ | ⟨e', a, b, ha, hb, hab⟩
    · cases hb
    · cases hb
      exact .inr ⟨e, a, n₁, ha, rfl, hab.akin⟩

theorem blind_akin : Blind True (fun i => ¬ i.ReadsTimer ∧ ¬ i.AsksKey) Akin where
  refl _ := ⟨rfl, rfl, rfl, rfl, rfl, rfl⟩
  symm h := ⟨h.config.symm, h.registers.symm, h.memory.symm, h.stack.symm, h.screen.symm,
    h.random.symm⟩
  trans h h' := ⟨h.config.trans h'.config, h.registers.trans h'.registers,
    h.memory.trans h'.memory, h.stack.trans h'.stack, h.screen.trans h'.screen,
    h.random.trans h'.random⟩
  timers _ _ := ⟨rfl, rfl, rfl, rfl, rfl, rfl⟩
  debugger _ _ := ⟨rfl, rfl, rfl, rfl, rfl, rfl⟩
  keypad _ _ _ := ⟨rfl, rfl, rfl, rfl, rfl, rfl⟩
  fetched h := h.alike.fetched
  step := Akin.step

/-- How a machine is driven does not matter to a program that does not look. Take two machines that
are alike, and so differ at most in their timers and in what a debugger keeps, and two schedules
that execute as many instructions, all with success and none of them reading a timer. If no keys are
pressed or released, both execute the same instructions and leave machines alike; and if then the
next step of one fails, the other's fails in the same way and leaves it alike. If instead no
instruction asks for the held key, keys can be pressed and released as well, and the same holds but
for the keypads. Either way, the schedule executes what as many single steps would: no
instruction is lost, repeated or out of order. -/
theorem schedules_agree {m' n' : Machine} (h : Alike m n) (hm : Executes m cs is m')
    (hn : Executes n ds js n') (hlen : is.length = js.length)
    (htimers : ∀ i ∈ is ++ js, ¬ i.ReadsTimer) :
    ((∀ d ∈ cs ++ ds, ¬ d.IsKeyEvent) →
      is = js ∧ Alike m' n' ∧ SameFailure Alike (step m') (step n') ∧
        ∃ p, Walks m is p ∧ Alike m' p) ∧
    ((∀ i ∈ is ++ js, ¬ i.AsksKey) →
      is = js ∧ Akin m' n' ∧
        ((∀ i, m'.fetched = .ok i → ¬ i.AsksKey) → SameFailure Akin (step m') (step n')) ∧
        ∃ p, Walks m is p ∧ Akin m' p) := by
  constructor
  · intro hkeys
    obtain ⟨his, hend⟩ := blind_alike.executes_agree h hm hn hlen htimers hkeys
    refine ⟨his, hend, blind_alike.sameFailure hend fun i _ => (Classical.em _).symm, ?_⟩
    exact blind_alike.walks_of_executes hm (.refl m)
      (fun i hi => htimers i (List.mem_append_left js hi))
      fun d hd => hkeys d (List.mem_append_left ds hd)
  · intro hasks
    have hok : ∀ i ∈ is ++ js, ¬ i.ReadsTimer ∧ ¬ i.AsksKey := fun i hi =>
      ⟨htimers i hi, hasks i hi⟩
    have hakin : Akin m n := Alike.akin (k := n.keypad) h
    obtain ⟨his, hend⟩ := blind_akin.executes_agree hakin hm hn hlen hok fun _ _ _ => trivial
    refine ⟨his, hend, fun hnext => ?_, ?_⟩
    · refine blind_akin.sameFailure hend fun i hf => ?_
      by_cases hread : i.ReadsTimer
      · exact .inr hread
      · exact .inl ⟨hread, hnext i hf⟩
    · exact blind_akin.walks_of_executes hm (blind_akin.refl m)
        (fun i hi => hok i (List.mem_append_left js hi)) fun _ _ _ => trivial

/-- Three instructions, and one that fails. -/
def counting : List UInt8 :=
  [0x60, 0x05, 0x70, 0x01, 0x00, 0xE0, 0x00, 0xEE]

def counted : List Instr :=
  [.byte .load 0 5, .byte .add 0 1, .plain .clear]

/-- A run that stops at a breakpoint and is resumed. -/
def resumed : List Command :=
  [.run 10 (some 1), .run 1 (some 3)]

/-- Single steps, with a tick in between. -/
def stepped : List Command :=
  [.step, .tick, .step, .setTracing true, .step]

/-- Both, with keys, one of them without a number. -/
def fidgeting : List Command :=
  [.press (some (.text "5")), .step, .press (some .unnamed), .run 2 (some (-1)), .step]

/-- Three ways to the same end. -/
theorem schedules_agree_counting :
    ∃ m, m.Reachable ∧
      Executes m resumed counted (m.session resumed) ∧
      Executes { m with timers := ⟨9, 0⟩ } stepped counted
        (session { m with timers := ⟨9, 0⟩ } stepped) ∧
      Executes m fidgeting counted (m.session fidgeting) ∧
      Alike (m.session resumed) (session { m with timers := ⟨9, 0⟩ } stepped) ∧
      SameFailure Alike (step (m.session resumed))
        (step (session { m with timers := ⟨9, 0⟩ } stepped)) ∧
      Akin (m.session resumed) (m.session fidgeting) ∧
      SameFailure Akin (step (m.session resumed)) (step (m.session fidgeting)) := by
  obtain ⟨m, hm, hcheck⟩ := exists_reachable small [.load counting none, .addBreakpoint 0x58]
    (fun m => decide (m.executed resumed = some counted ∧
      executed { m with timers := ⟨9, 0⟩ } stepped = some counted ∧
      m.executed fidgeting = some counted ∧
      (m.session resumed).fetched.toOption = some (.plain .ret)))
    (by decide) (by decide +kernel)
  obtain ⟨hresumed, hstepped, hfidgeting, hnext⟩ := of_decide_eq_true hcheck
  have hr := executes_of_executed hresumed
  have hs := executes_of_executed hstepped
  have hf := executes_of_executed hfidgeting
  have halike : Alike m { m with timers := ⟨9, 0⟩ } := ⟨rfl, rfl, rfl, rfl, rfl, rfl, rfl⟩
  have htimers : ∀ i ∈ counted ++ counted, ¬ i.ReadsTimer := by
    rintro i hi ⟨x, rfl⟩
    simp [counted] at hi
  have hkeys : ∀ d ∈ resumed ++ stepped, ¬ d.IsKeyEvent := by decide
  have hasks : ∀ i ∈ counted ++ counted, ¬ i.AsksKey := by decide
  obtain ⟨-, hend, hfailure, -⟩ := (schedules_agree halike hr hs rfl htimers).1 hkeys
  obtain ⟨-, hend', hfailure', -⟩ := (schedules_agree (.refl m) hr hf rfl htimers).2 hasks
  refine ⟨m, hm, hr, hs, hf, hend, hfailure, hend', hfailure' fun i hi => ?_⟩
  rw [hi] at hnext
  cases hnext
  decide

end Machine

end Chip8
