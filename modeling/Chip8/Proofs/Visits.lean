import Chip8.Proofs.Debugging
import Chip8.Proofs.Runs

/-!
# The machines that steps are taken from

A session takes its steps one by one or in runs. `visits` lists the machines from which it takes
one, and `Leads` says how it gets from each of them to the next. What only steps change can then be
told from the list alone (`Leads.eq_foldl`), and what all of these steps keep, the session keeps
(`Leads.kept`).
-/

namespace Chip8

namespace Command

/-- The commands that take steps. -/
def TakesSteps : Command → Prop
  | .step => True
  | .run _ _ => True
  | _ => False

/-- The commands that write memory without executing anything. -/
def Stores : Command → Prop
  | .load _ _ => True
  | .poke _ _ => True
  | .boot => True
  | .reset => True
  | _ => False

/-- The commands that write the trace or its switch without executing anything. -/
def SetsTrace : Command → Prop
  | .setTracing _ => True
  | .clearTrace => True
  | .reset => True
  | _ => False

end Command

namespace Machine

variable {m n s : Machine} {ns os : List Machine} {quiet : Command → Prop}

/-! ## Runs and sessions -/

/-- The machines that a run takes a step from. -/
def visitedFrom (cadence : Int) : (budget done : Nat) → Machine → List Machine
  | 0, _, _ => []
  | n + 1, done, m =>
    if done ≠ 0 ∧ m.atBreakpoint then []
    else
      match turn cadence done m with
      | .ok _ next => m :: visitedFrom cadence n (done + 1) next
      | .error _ _ => [m]

def visited (m : Machine) : Command → List Machine
  | .step => [m]
  | .run budget cadence? =>
    visitedFrom (cadence?.getD m.config.cadence) budget.toNat 0 (m.blame none)
  | _ => []

def visits : Machine → List Command → List Machine
  | _, [] => []
  | m, c :: cs => m.visited c ++ (after (perform c) m).visits cs

/-! ## From one machine to the next -/

/-- A way from `m` to `n` on which just the steps from `ns` are taken, and besides only ticks and
commands that are `quiet`. The last fault may change at any time. -/
inductive Leads (quiet : Command → Prop) : Machine → List Machine → Machine → Prop where
  | stay (m : Machine) : Leads quiet m [] m
  | step {m n : Machine} {ns : List Machine} (h : Leads quiet (after step m) ns n) :
      Leads quiet m (m :: ns) n
  | tick {m n : Machine} {ns : List Machine} (h : Leads quiet (after tick m) ns n) :
      Leads quiet m ns n
  | blame {m n : Machine} {ns : List Machine} (f : Option Fault)
      (h : Leads quiet (m.blame f) ns n) : Leads quiet m ns n
  | aside {m n : Machine} {ns : List Machine} {c : Command} (hc : quiet c)
      (h : Leads quiet (after (perform c) m) ns n) : Leads quiet m ns n

namespace Leads

theorem append (h : Leads quiet m ns n) (h' : Leads quiet n os s) :
    Leads quiet m (ns ++ os) s := by
  induction h with
  | stay m => exact h'
  | step _ ih => exact .step (ih h')
  | tick _ ih => exact .tick (ih h')
  | blame f _ ih => exact .blame f (ih h')
  | aside hc _ ih => exact .aside hc (ih h')

/-- The way up to one of the steps. -/
theorem upTo (h : Leads quiet m (ns ++ s :: os) n) : Leads quiet m ns s := by
  generalize hall : ns ++ s :: os = all at h
  induction h generalizing ns with
  | stay m => exact absurd hall (by simp)
  | @step m n rest h ih =>
    cases ns with
    | nil =>
      obtain ⟨rfl, -⟩ := List.cons.inj hall
      exact .stay s
    | cons t ns =>
      obtain ⟨rfl, hrest⟩ := List.cons.inj hall
      exact .step (ih hrest)
  | tick _ ih => exact .tick (ih hall)
  | blame f _ ih => exact .blame f (ih hall)
  | aside hc _ ih => exact .aside hc (ih hall)

/-- A view of the machine that only steps change, each as `g` says. -/
theorem eq_foldl {σ : Type} {f : Machine → σ} {g : σ → Machine → σ}
    (hstep : ∀ m, f (after Machine.step m) = g (f m) m)
    (htick : ∀ m, f (after Machine.tick m) = f m) (hblame : ∀ m e, f (m.blame e) = f m)
    (haside : ∀ c m, quiet c → f (after (perform c) m) = f m) (h : Leads quiet m ns n) :
    f n = ns.foldl g (f m) := by
  induction h with
  | stay m => rfl
  | @step m n ns _ ih => rw [ih, hstep, List.foldl_cons]
  | @tick m n ns _ ih => rw [ih, htick]
  | @blame m n ns e _ ih => rw [ih, hblame]
  | @aside m n ns c hc _ ih => rw [ih, haside c m hc]

/-- What the steps from `ns` keep. -/
theorem kept {P : Machine → Prop} (htick : ∀ m, P m → P (after Machine.tick m))
    (hblame : ∀ m e, P m → P (m.blame e))
    (haside : ∀ c m, quiet c → P m → P (after (perform c) m)) (h : Leads quiet m ns n)
    (hstep : ∀ s ∈ ns, P s → P (after Machine.step s)) (hm : P m) : P n := by
  induction h with
  | stay m => exact hm
  | @step m n ns _ ih =>
    have hfirst := hstep m List.mem_cons_self hm
    exact ih (fun s hs => hstep s (List.mem_cons_of_mem m hs)) hfirst
  | tick _ ih => exact ih hstep (htick _ hm)
  | blame e _ ih => exact ih hstep (hblame _ e hm)
  | aside hc _ ih => exact ih hstep (haside _ _ hc hm)

end Leads

/-! ## Steps, runs and sessions as ways -/

theorem after_step_of_error {e : Failure} (h : m.fetched = .error e) : after step m = m := by
  unfold after
  rw [step_eq, h]

/-- An instruction that fails puts the counter back, and this is all that it does besides. -/
theorem after_step_of_fetched {i : Instr} (h : m.fetched = .ok i) :
    after step m = after (execute i) (m.launched i) ∨
      after step m = m.rewound (after (execute i) (m.launched i)) := by
  unfold after
  rw [step_eq, h]
  simp only
  cases execute i (m.launched i) with
  | ok _ n => exact .inl rfl
  | error e n =>
    cases e with
    | fault f => exact .inr rfl
    | misuse u => exact .inl rfl

theorem after_bind_pure {α β : Type} (a : Action α) (x : α → β) (m : Machine) :
    after (a >>= fun y => pure (x y)) m = after a m := by
  unfold after
  rw [bind_apply]
  cases a m <;> rfl

theorem visitedFrom_succ {cadence : Int} (hc : cadence ≠ 0) (budget done : Nat) (m : Machine) :
    visitedFrom cadence (budget + 1) done m =
      if done ≠ 0 ∧ m.atBreakpoint then []
      else match step m with
        | .ok _ n => m :: visitedFrom cadence budget (done + 1) (ticked cadence done n)
        | .error _ _ => [m] := by
  rw [visitedFrom, turn_eq hc]
  cases step m <;> rfl

/-- A turn takes its step, and after it perhaps a tick. -/
theorem after_turn (cadence : Int) (done : Nat) (m : Machine) :
    after (turn cadence done) m = after step m ∨
      after (turn cadence done) m = after tick (after step m) := by
  by_cases hc : cadence = 0
  · subst hc
    left
    unfold after turn
    rw [bind_apply]
    cases step m <;> rfl
  · unfold after
    rw [turn_eq hc]
    cases step m with
    | error e n => exact .inl rfl
    | ok i n =>
      show ticked cadence done n = n ∨ ticked cadence done n = after tick n
      unfold ticked
      by_cases hdue : ((done : Int) + 1) % cadence = 0
      · rw [if_pos hdue]
        exact .inr rfl
      · rw [if_neg hdue]
        exact .inl rfl

theorem Leads.turn (cadence : Int) (done : Nat)
    (h : Leads quiet (after (turn cadence done) m) ns n) : Leads quiet m (m :: ns) n := by
  rcases after_turn cadence done m with heq | heq
  · rw [heq] at h
    exact .step h
  · rw [heq] at h
    exact .step (.tick h)

theorem leads_runFrom (cadence : Int) (budget done : Nat) (m : Machine) :
    Leads quiet m (visitedFrom cadence budget done m) (after (runFrom cadence budget done) m) := by
  induction budget generalizing done m with
  | zero => exact .stay m
  | succ budget ih =>
    unfold after runFrom visitedFrom
    by_cases hb : done ≠ 0 ∧ m.atBreakpoint
    · rw [if_pos hb, if_pos hb]
      exact .stay m
    · rw [if_neg hb, if_neg hb]
      cases ht : turn cadence done m with
      | ok _ next =>
        apply Leads.turn cadence done
        rw [after_of_ok ht]
        exact ih (done + 1) next
      | error e next =>
        apply Leads.turn cadence done
        rw [after_of_error ht]
        cases e with
        | fault f => exact .blame (some f) (.stay _)
        | misuse u => exact .stay next

theorem after_perform_run (budget : Int) (cadence? : Option Int) (m : Machine) :
    after (perform (.run budget cadence?)) m =
      after (runFrom (cadence?.getD m.config.cadence) budget.toNat 0) (m.blame none) := by
  have hrun : run budget cadence? m =
      runFrom (cadence?.getD m.config.cadence) budget.toNat 0 (m.blame none) := rfl
  have hperform : perform (.run budget cadence?) =
      run budget cadence? >>= fun r => get >>= fun n => pure (.stopped r n.lastFault) := rfl
  unfold after
  rw [← hrun, hperform, bind_apply]
  cases run budget cadence? m <;> rfl

theorem visited_of_not_takesSteps {c : Command} (hc : ¬ c.TakesSteps) (m : Machine) :
    m.visited c = [] := by
  cases c with
  | step => exact absurd trivial hc
  | run budget cadence? => exact absurd trivial hc
  | _ => rfl

theorem leads_perform {c : Command} (hc : ¬ c.TakesSteps → quiet c) (m : Machine) :
    Leads quiet m (m.visited c) (after (perform c) m) := by
  by_cases hs : c.TakesSteps
  · cases c with
    | step =>
      have hafter : after (perform .step) m = after step m := after_bind_pure step _ m
      rw [hafter]
      exact .step (.stay _)
    | run budget cadence? =>
      rw [after_perform_run]
      exact .blame none (leads_runFrom _ _ _ _)
    | _ => exact hs.elim
  · rw [visited_of_not_takesSteps hs]
    exact .aside (hc hs) (.stay _)

theorem leads_session {cs : List Command} (h : ∀ c ∈ cs, ¬ c.TakesSteps → quiet c) (m : Machine) :
    Leads quiet m (m.visits cs) (m.session cs) := by
  induction cs generalizing m with
  | nil => exact .stay m
  | cons c cs ih =>
    have hfirst := leads_perform (h c List.mem_cons_self) m
    exact hfirst.append (ih (fun d hd => h d (List.mem_cons_of_mem c hd)) _)

/-! ## Commands that execute nothing -/

/-- What a command leaves alone that executes nothing and does not reset. -/
structure Spared (c : Command) (m n : Machine) : Prop where
  config : n.config = m.config
  random : n.random = m.random
  memory : ¬ c.Stores → n.memory = m.memory
  trace : ¬ c.SetsTrace → n.tracing = m.tracing ∧ n.trace = m.trace

theorem closedOn_spared (c : Command) :
    ClosedOn (fun p => p ≠ .randomByte ∧ (p = .writeCell → c.Stores)) (Spared c) where
  refl _ := ⟨rfl, rfl, fun _ => rfl, fun _ => ⟨rfl, rfl⟩⟩
  trans h₁ h₂ := ⟨h₂.config.trans h₁.config, h₂.random.trans h₁.random,
    fun h => (h₂.memory h).trans (h₁.memory h),
    fun h => ⟨(h₂.trace h).1.trans (h₁.trace h).1, (h₂.trace h).2.trans (h₁.trace h).2⟩⟩
  setRegister _ _ _ _ := ⟨rfl, rfl, fun _ => rfl, fun _ => ⟨rfl, rfl⟩⟩
  setFlag _ _ _ := ⟨rfl, rfl, fun _ => rfl, fun _ => ⟨rfl, rfl⟩⟩
  setIndex _ _ _ := ⟨rfl, rfl, fun _ => rfl, fun _ => ⟨rfl, rfl⟩⟩
  setCounter _ _ _ := ⟨rfl, rfl, fun _ => rfl, fun _ => ⟨rfl, rfl⟩⟩
  write hp _ _ _ _ _ := ⟨rfl, rfl, fun h => absurd (hp.2 rfl) h, fun _ => ⟨rfl, rfl⟩⟩
  push _ _ _ _ _ := ⟨rfl, rfl, fun _ => rfl, fun _ => ⟨rfl, rfl⟩⟩
  pop _ _ _ _ _ := ⟨rfl, rfl, fun _ => rfl, fun _ => ⟨rfl, rfl⟩⟩
  setDelay _ _ _ := ⟨rfl, rfl, fun _ => rfl, fun _ => ⟨rfl, rfl⟩⟩
  setSound _ _ _ := ⟨rfl, rfl, fun _ => rfl, fun _ => ⟨rfl, rfl⟩⟩
  clear _ _ := ⟨rfl, rfl, fun _ => rfl, fun _ => ⟨rfl, rfl⟩⟩
  draw _ _ _ _ _ _ _ _ := ⟨rfl, rfl, fun _ => rfl, fun _ => ⟨rfl, rfl⟩⟩
  random hp := absurd rfl hp.1

theorem spared_load (c : Command) (hc : c.Stores) (image : List UInt8) (base? : Option Int) :
    Carries (Spared c) (load image base?) := by
  intro m
  unfold after load
  cases m.memory.load image (base?.getD m.config.programStart) with
  | ok mem => exact ⟨rfl, rfl, fun h => absurd hc h, fun _ => ⟨rfl, rfl⟩⟩
  | error f => exact (closedOn_spared c).refl m

theorem spared_perform {c : Command} (hsteps : ¬ c.TakesSteps) (hexecute : ∀ e, c ≠ .execute e)
    (hreset : c ≠ .reset) (m : Machine) : Spared c m (after (perform c) m) := by
  have hR := closedOn_spared c
  have hdone {a : Action Unit} (ha : Carries (Spared c) a) :
      Carries (Spared c) (a >>= fun _ => pure Reply.done) :=
    Carries.bind hR.toIsPreorder ha fun _ => Carries.pure hR.toIsPreorder _
  cases c with
  | step => exact absurd trivial hsteps
  | run budget cadence => exact absurd trivial hsteps
  | execute entry => exact absurd rfl (hexecute entry)
  | reset => exact absurd rfl hreset
  | load image base => exact hdone (spared_load (.load image base) trivial image base) m
  | boot =>
    have hfont (image : List UInt8) (base? : Option Int) := spared_load .boot trivial image base?
    refine hdone (Carries.bind hR.toIsPreorder (Carries.get hR.toIsPreorder) fun _ =>
      Carries.bind hR.toIsPreorder (hfont _ _) fun _ => Carries.modify fun n => ?_) m
    exact ⟨rfl, rfl, fun h => absurd trivial h, fun _ => ⟨rfl, rfl⟩⟩
  | poke address value => exact hdone (hR.writeCell ⟨nofun, fun _ => trivial⟩ address value) m
  | setRegister x value => exact hdone (hR.writeRegister ⟨nofun, nofun⟩ x value) m
  | push address => exact hdone (hR.pushAddress ⟨nofun, nofun⟩ address) m
  | pop =>
    exact Carries.bind hR.toIsPreorder (hR.popAddress ⟨nofun, nofun⟩)
      (fun _ => Carries.pure hR.toIsPreorder _) m
  | draw row col sprite =>
    exact Carries.bind hR.toIsPreorder (hR.drawSprite ⟨nofun, nofun⟩ row col sprite)
      (fun _ => Carries.pure hR.toIsPreorder _) m
  | setTracing on => exact ⟨rfl, rfl, fun _ => rfl, fun h => absurd trivial h⟩
  | clearTrace => exact ⟨rfl, rfl, fun _ => rfl, fun h => absurd trivial h⟩
  | _ => exact ⟨rfl, rfl, fun _ => rfl, fun _ => ⟨rfl, rfl⟩⟩

end Machine

end Chip8
