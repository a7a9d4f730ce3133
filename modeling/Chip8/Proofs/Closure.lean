import Chip8.Proofs.Composition

/-!
# Relations closed under what a machine does

`ClosedOn allowed R` lists the changes that the operations of instructions make to single components
and asks `R` to hold across those that are allowed: every instruction that uses no others then
carries `R`, whatever its operands. `StepClosed R` allows all of them and adds what a step does
besides, `CommandClosed R` adds the changes from outside, so that steps, runs, commands and sessions
carry `R`, too. For a run it is enough that steps and ticks do (`RunClosed R`).
-/

namespace Chip8.Machine

/-- `R` holds across every change of one component by an allowed operation. -/
structure ClosedOn (allowed : Primitive → Prop) (R : Machine → Machine → Prop) : Prop
    extends IsPreorder R where
  setRegister : allowed .setRegister → ∀ m s b, R m { m with registers := m.registers.set s b }
  setFlag : allowed .setFlag → ∀ m v, R m { m with registers := m.registers.setFlag v }
  setIndex : allowed .setIndex → ∀ m v, R m { m with registers := m.registers.setIndex v }
  setCounter : allowed .setCounter → ∀ m v, R m { m with registers := m.registers.setCounter v }
  write : allowed .writeCell → ∀ m a v mem, m.memory.write8 a v = .ok mem →
    R m { m with memory := mem }
  push : allowed .push → ∀ m a s, m.stack.push a = .ok s → R m { m with stack := s }
  pop : allowed .pop → ∀ m a s, m.stack.pop = .ok (a, s) → R m { m with stack := s }
  setDelay : allowed .setDelay → ∀ m v, R m { m with timers := m.timers.setDelay v }
  setSound : allowed .setSound → ∀ m v, R m { m with timers := m.timers.setSound v }
  clear : allowed .clearScreen → ∀ m, R m { m with screen := m.screen.clear }
  draw : allowed .draw → ∀ m row col bs s b, m.screen.draw row col bs = .ok (s, b) →
    R m { m with screen := s }
  random : allowed .randomByte → ∀ m, R m { m with random := m.random.byte.2 }

/-- `R` holds across every change of one component that a step makes. -/
structure StepClosed (R : Machine → Machine → Prop) : Prop extends IsPreorder R where
  registers : ∀ m r, R m { m with registers := r }
  timers : ∀ m t, R m { m with timers := t }
  write : ∀ m a v mem, m.memory.write8 a v = .ok mem → R m { m with memory := mem }
  push : ∀ m a s, m.stack.push a = .ok s → R m { m with stack := s }
  pop : ∀ m a s, m.stack.pop = .ok (a, s) → R m { m with stack := s }
  clear : ∀ m, R m { m with screen := m.screen.clear }
  draw : ∀ m row col bs s b, m.screen.draw row col bs = .ok (s, b) → R m { m with screen := s }
  random : ∀ m, R m { m with random := m.random.byte.2 }
  trace : ∀ m t, R m { m with trace := t }

/-- `R` also holds across every change from outside. -/
structure CommandClosed (R : Machine → Machine → Prop) : Prop extends StepClosed R where
  load : ∀ m image base mem, m.memory.load image base = .ok mem → R m { m with memory := mem }
  emptied : ∀ m, R m { m with stack := m.stack.reset }
  keypad : ∀ m k, R m { m with keypad := k }
  reseeded : ∀ m, R m { m with random := randomFor m.config }
  breakpoints : ∀ m bs, R m { m with breakpoints := bs }
  tracing : ∀ m on, R m { m with tracing := on }
  lastFault : ∀ m f, R m { m with lastFault := f }

variable {R : Machine → Machine → Prop}

/-! ## Instructions -/

namespace ClosedOn

variable {allowed : Primitive → Prop} (hR : ClosedOn allowed R)

include hR

theorem register (x : Int) : Carries R (register x) := by
  refine Carries.of_after_eq hR.toIsPreorder fun m => ?_
  unfold after Machine.register
  cases m.registers.read x <;> rfl

theorem readCell (a : Int) : Carries R (readCell a) := by
  refine Carries.of_after_eq hR.toIsPreorder fun m => ?_
  unfold after Machine.readCell
  cases m.memory.read8 a <;> rfl

theorem heldKey : Carries R heldKey := by
  refine Carries.of_after_eq hR.toIsPreorder fun m => ?_
  unfold after Machine.heldKey
  cases m.keypad.nibble <;> rfl

theorem writeRegister (h : allowed .setRegister) (x v : Int) :
    Carries R (Machine.setRegister x v) := by
  intro m
  unfold after Machine.setRegister Registers.write
  cases Registers.slot? x with
  | some s => exact hR.setRegister h m s _
  | none => exact hR.refl m

theorem writeCell (h : allowed .writeCell) (a v : Int) : Carries R (writeCell a v) := by
  intro m
  unfold after Machine.writeCell
  cases hw : m.memory.write8 a v with
  | ok mem => exact hR.write h m a v mem hw
  | error f => exact hR.refl m

theorem pushAddress (h : allowed .push) (a : Int) : Carries R (Machine.push a) := by
  intro m
  unfold after Machine.push
  cases hs : m.stack.push a with
  | ok s => exact hR.push h m a s hs
  | error f => exact hR.refl m

theorem popAddress (h : allowed .pop) : Carries R Machine.pop := by
  intro m
  unfold after Machine.pop
  cases hs : m.stack.pop with
  | ok p => exact hR.pop h m p.1 p.2 hs
  | error f => exact hR.refl m

theorem drawSprite (h : allowed .draw) (row col : Int) (bs : List Int) :
    Carries R (Machine.draw row col bs) := by
  intro m
  unfold after Machine.draw
  cases hd : m.screen.draw row col bs with
  | ok p => exact hR.draw h m row col bs p.1 p.2 hd
  | error u => exact hR.refl m

theorem compositional : Compositional allowed fun {α} (a : Action α) => Carries R a where
  pure := Carries.pure hR.toIsPreorder
  bind := Carries.bind hR.toIsPreorder
  fault := Carries.fault hR.toIsPreorder
  fontStart _ hk := Carries.bind hR.toIsPreorder (Carries.get hR.toIsPreorder) fun _ => hk _
  register := hR.register
  index := hR.refl
  counter := hR.refl
  setRegister := hR.writeRegister
  setFlag h v m := hR.setFlag h m v
  setIndex h v m := hR.setIndex h m v
  setCounter h v m := hR.setCounter h m v
  readCell _ := hR.readCell
  writeCell := hR.writeCell
  push := hR.pushAddress
  pop := hR.popAddress
  readDelay _ _ _ hk := Carries.bind hR.toIsPreorder (Carries.get hR.toIsPreorder) fun _ => hk _
  setDelay h v m := hR.setDelay h m v
  setSound h v m := hR.setSound h m v
  clearScreen h m := hR.clear h m
  draw := hR.drawSprite
  heldKey _ := hR.heldKey
  randomByte h m := hR.random h m

theorem execute {i : Instr} (hi : ∀ p ∈ i.opcode.primitives, allowed p) :
    Carries R (Machine.execute i) :=
  hR.compositional.execute i hi

end ClosedOn

/-! ## Steps -/

namespace StepClosed

variable (hR : StepClosed R)

include hR

theorem closedOn : ClosedOn (fun _ => True) R where
  refl := hR.refl
  trans := hR.trans
  setRegister _ m _ _ := hR.registers m _
  setFlag _ m _ := hR.registers m _
  setIndex _ m _ := hR.registers m _
  setCounter _ m _ := hR.registers m _
  write _ := hR.write
  push _ := hR.push
  pop _ := hR.pop
  setDelay _ m _ := hR.timers m _
  setSound _ m _ := hR.timers m _
  clear _ := hR.clear
  draw _ := hR.draw
  random _ := hR.random

theorem setCounter (v : Int) : Carries R (setCounter v) := fun m => hR.registers m _

theorem tick : Carries R tick := fun m => hR.timers m _

theorem bind {α β : Type} {a : Action α} {k : α → Action β} (ha : Carries R a)
    (hk : ∀ x, Carries R (k x)) : Carries R (a >>= k) :=
  Carries.bind hR.toIsPreorder ha hk

theorem pure {α : Type} (x : α) : Carries R (Pure.pure x : Action α) :=
  Carries.pure hR.toIsPreorder x

theorem execute (i : Instr) : Carries R (execute i) :=
  hR.closedOn.execute fun _ _ => trivial

theorem fetch : Carries R fetch := by
  refine hR.bind hR.refl fun pc => hR.bind (hR.closedOn.readCell _) fun high =>
    hR.bind (hR.closedOn.readCell _) fun low => hR.bind (Carries.get hR.toIsPreorder) fun m => ?_
  cases Instr.decodeBytes high.toNat low.toNat m.memory.size with
  | ok i => exact hR.pure i
  | error e => exact hR.refl

theorem record (i : Instr) : Carries R (record i) := by
  refine Carries.modify fun m => ?_
  by_cases ht : m.tracing = true
  · rw [if_pos ht]
    exact hR.trace m _
  · rw [if_neg ht]
    exact hR.refl m

theorem executeFrom (pc : UInt16) (i : Instr) : Carries R (executeFrom pc i) := by
  intro m
  have h := hR.bind (hR.setCounter (pc.toNat + 2)) (fun _ => hR.execute i) m
  unfold after Machine.executeFrom
  unfold after at h
  cases hx : (Machine.setCounter (pc.toNat + 2) >>= fun _ => Machine.execute i) m with
  | ok _ n => rw [hx] at h; exact h
  | error e n =>
    rw [hx] at h
    cases e with
    | fault f => exact hR.trans h (hR.registers n _)
    | misuse u => exact h

theorem step : Carries R step :=
  hR.bind hR.refl fun pc => hR.bind hR.fetch fun i => hR.bind (hR.record i) fun _ =>
    hR.bind (hR.executeFrom pc i) fun _ => hR.pure i

end StepClosed

/-! ## Runs -/

/-- `R` holds across steps and across what a run does between them. -/
structure RunClosed (R : Machine → Machine → Prop) : Prop extends IsPreorder R where
  step : Carries R step
  tick : Carries R tick
  lastFault : ∀ m f, R m { m with lastFault := f }

namespace RunClosed

variable (hR : RunClosed R)

include hR

theorem turn (cadence : Int) (done : Nat) : Carries R (turn cadence done) := by
  refine Carries.bind hR.toIsPreorder hR.step fun _ => ?_
  by_cases h0 : cadence = 0
  · rw [if_pos h0]
    exact hR.refl
  · rw [if_neg h0]
    by_cases hd : ((done : Int) + 1) % cadence = 0
    · rw [if_pos hd]
      exact hR.tick
    · rw [if_neg hd]
      exact hR.refl

theorem runFrom (cadence : Int) (budget done : Nat) : Carries R (runFrom cadence budget done) := by
  induction budget generalizing done with
  | zero => exact hR.refl
  | succ n ih =>
    intro m
    have ht := hR.turn cadence done m
    unfold after Machine.runFrom
    unfold after at ht
    by_cases hb : done ≠ 0 ∧ m.atBreakpoint
    · rw [if_pos hb]
      exact hR.refl m
    · rw [if_neg hb]
      cases hx : Machine.turn cadence done m with
      | ok _ m₁ =>
        rw [hx] at ht
        exact hR.trans ht (ih (done + 1) m₁)
      | error e m₁ =>
        rw [hx] at ht
        cases e with
        | fault f => exact hR.trans ht (hR.lastFault m₁ (some f))
        | misuse u => exact ht

theorem run (budget : Int) (cadence? : Option Int) : Carries R (run budget cadence?) := by
  refine Carries.bind hR.toIsPreorder (Carries.modify fun m => ?_) fun _ =>
    Carries.bind hR.toIsPreorder (Carries.get hR.toIsPreorder) fun m => hR.runFrom _ _ _
  exact hR.lastFault m none

end RunClosed

/-! ## Commands and sessions -/

/-- A session carries what each of its commands does. -/
theorem carries_session (hR : IsPreorder R) {cs : List Command}
    (h : ∀ c ∈ cs, Carries R (perform c)) (m : Machine) : R m (m.session cs) := by
  induction cs generalizing m with
  | nil => exact hR.refl m
  | cons c cs ih =>
    have hfirst := h c List.mem_cons_self m
    have hrest := ih (fun d hd => h d (List.mem_cons_of_mem c hd)) (after (perform c) m)
    exact hR.trans hfirst hrest

namespace CommandClosed

variable (hR : CommandClosed R)

include hR

theorem runClosed : RunClosed R where
  refl := hR.refl
  trans := hR.trans
  step := hR.step
  tick := hR.tick
  lastFault := hR.lastFault

theorem loadImage (image : List UInt8) (base? : Option Int) :
    Carries R (Machine.load image base?) := by
  intro m
  unfold after Machine.load
  cases h : m.memory.load image (base?.getD m.config.programStart) with
  | ok mem => exact hR.load m image _ mem h
  | error f => exact hR.refl m

theorem boot : Carries R boot := by
  refine hR.bind (Carries.get hR.toIsPreorder) fun _ => hR.bind (hR.loadImage _ _) fun _ =>
    Carries.modify fun m => ?_
  have h₁ := hR.registers m (Registers.cleared.setCounter m.config.programStart)
  have h₂ := hR.trans h₁ (hR.emptied _)
  have h₃ := hR.trans h₂ (hR.timers _ Timers.stopped)
  have h₄ := hR.trans h₃ (hR.clear _)
  exact hR.trans h₄ (hR.keypad _ Keypad.idle)

theorem reset : Carries R reset := by
  refine hR.bind hR.boot fun _ => Carries.modify fun m => ?_
  have h₁ := hR.trans (hR.reseeded m) (hR.breakpoints _ [])
  have h₂ := hR.trans h₁ (hR.trace _ #[])
  exact hR.trans h₂ (hR.lastFault _ none)

theorem executeEntry (e : Entry) : Carries R (executeEntry e) := by
  cases e with
  | blank => exact hR.refl
  | instr i => exact hR.execute i

/-- Whatever is asked of a machine. -/
theorem perform (c : Command) : Carries R (perform c) := by
  have hdone {a : Action Unit} (ha : Carries R a) :
      Carries R (a >>= fun _ => Pure.pure Reply.done) := hR.bind ha fun _ => hR.pure _
  cases c with
  | step => exact hR.bind hR.step fun i => hR.pure _
  | run budget cadence =>
    exact hR.bind (hR.runClosed.run budget cadence) fun r =>
      hR.bind (Carries.get hR.toIsPreorder) fun m => hR.pure _
  | execute entry => exact hdone (hR.executeEntry entry)
  | load image base => exact hdone (hR.loadImage image base)
  | press | release => exact hdone (Carries.modify fun m => hR.keypad m _)
  | tick => exact hdone hR.tick
  | boot => exact hdone hR.boot
  | reset => exact hdone hR.reset
  | poke address value => exact hdone (hR.closedOn.writeCell trivial address value)
  | setRegister x value => exact hdone (hR.closedOn.writeRegister trivial x value)
  | setIndex value => exact hdone (Carries.modify fun m => hR.registers m _)
  | setCounter value => exact hdone (hR.setCounter value)
  | push address => exact hdone (hR.closedOn.pushAddress trivial address)
  | pop => exact hR.bind (hR.closedOn.popAddress trivial) fun a => hR.pure _
  | setDelay | setSound => exact hdone (Carries.modify fun m => hR.timers m _)
  | addBreakpoint | removeBreakpoint => exact hdone (Carries.modify fun m => hR.breakpoints m _)
  | setTracing _ => exact hdone (Carries.modify fun m => hR.tracing m _)
  | clearTrace => exact hdone (Carries.modify fun m => hR.trace m _)
  | draw row col sprite =>
    exact hR.bind (hR.closedOn.drawSprite trivial row col sprite) fun b => hR.pure _
  | clearScreen => exact hdone hR.clear

theorem session (m : Machine) (cs : List Command) : R m (m.session cs) :=
  carries_session hR.toIsPreorder (fun c _ => hR.perform c) m

end CommandClosed

end Chip8.Machine
