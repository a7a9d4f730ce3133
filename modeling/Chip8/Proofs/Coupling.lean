import Chip8.Proofs.Composition
import Chip8.Proofs.Step

/-!
# Running two machines side by side

`Tracks R a` says that `a` has the same outcome on machines related by `R` and leaves them related.
`Coupled allowed R` asks of `R` what makes the allowed operations do so: related machines agree in
the components that operations look at, and remain related when a component of both is changed in
the same way. Memory alone is treated as a whole, by what reading and writing a cell do, since
related machines need not have the same. An instruction that uses allowed operations only is tracked
then (`Coupled.execute`).
-/

namespace Chip8.Machine

variable {α β : Type} {R : Machine → Machine → Prop}

def Tracks (R : Machine → Machine → Prop) (act : Action α) : Prop :=
  ∀ m n, R m n → SameOutcome R (act m) (act n)

namespace Tracks

theorem pure (x : α) : Tracks R (Pure.pure x : Action α) := fun _ _ h => .ok x h

theorem bind {act : Action α} {k : α → Action β} (ha : Tracks R act) (hk : ∀ x, Tracks R (k x)) :
    Tracks R (act >>= k) := fun m n h => (ha m n h).bind hk

/-- What is read off both machines is the same. -/
theorem reading {γ : Type} {g : Machine → γ} (hg : ∀ {m n}, R m n → g n = g m) (k : γ → Action α)
    (hk : ∀ x, Tracks R (k x)) : Tracks R (get >>= fun m => k (g m)) := by
  intro m n h
  show SameOutcome R (k (g m) m) (k (g n) n)
  rw [hg h]
  exact hk (g m) m n h

theorem modify {f : Machine → Machine} (hf : ∀ {m n}, R m n → R (f m) (f n)) :
    Tracks R (modify f : Action Unit) := fun _ _ h => .ok () (hf h)

section

variable (hmemory : ∀ {m n}, R m n → n.memory = m.memory)

include hmemory

theorem readCell_of_eq (a : Int) : Tracks R (readCell a) := by
  intro m n h
  unfold Machine.readCell
  rw [hmemory h]
  cases m.memory.read8 a with
  | ok b => exact .ok b h
  | error f => exact .error _ h

theorem writeCell_of_eq
    (hset : ∀ {m n}, R m n → ∀ mem, R { m with memory := mem } { n with memory := mem })
    (a v : Int) : Tracks R (writeCell a v) := by
  intro m n h
  unfold Machine.writeCell
  rw [hmemory h]
  cases m.memory.write8 a v with
  | ok mem => exact .ok () (hset h mem)
  | error f => exact .error _ h

end

end Tracks

structure Coupled (allowed : Primitive → Prop) (R : Machine → Machine → Prop) : Prop where
  config : ∀ {m n}, R m n → n.config = m.config
  registers : ∀ {m n}, R m n → n.registers = m.registers
  stack : ∀ {m n}, R m n → n.stack = m.stack
  screen : ∀ {m n}, R m n → n.screen = m.screen
  random : ∀ {m n}, R m n → n.random = m.random
  keypad : allowed .heldKey → ∀ {m n}, R m n → n.keypad = m.keypad
  delay : allowed .readDelay → ∀ {m n}, R m n → n.timers.delay = m.timers.delay
  readCell : allowed .readCell → ∀ a, Tracks R (readCell a)
  writeCell : allowed .writeCell → ∀ a v, Tracks R (writeCell a v)
  setRegisters : ∀ {m n}, R m n → ∀ r, R { m with registers := r } { n with registers := r }
  setStack : ∀ {m n}, R m n → ∀ s, R { m with stack := s } { n with stack := s }
  setScreen : ∀ {m n}, R m n → ∀ s, R { m with screen := s } { n with screen := s }
  setRandom : ∀ {m n}, R m n → ∀ g, R { m with random := g } { n with random := g }
  /-- The timers that are changed need not be the same. -/
  mapTimers : ∀ {m n}, R m n → ∀ f : Timers → Timers,
    R { m with timers := f m.timers } { n with timers := f n.timers }

namespace Coupled

variable {allowed : Primitive → Prop} (hR : Coupled allowed R)

include hR

theorem register (x : Int) : Tracks R (register x) := by
  intro m n h
  unfold Machine.register
  rw [hR.registers h]
  cases m.registers.read x with
  | ok b => exact .ok b h
  | error u => exact .error _ h

theorem setRegister (x v : Int) : Tracks R (setRegister x v) := by
  intro m n h
  unfold Machine.setRegister
  rw [hR.registers h]
  cases m.registers.write x v with
  | ok r => exact .ok () (hR.setRegisters h r)
  | error u => exact .error _ h

theorem mapRegisters (f : Registers → Registers) :
    Tracks R (modify fun m => { m with registers := f m.registers } : Action Unit) := by
  refine .modify fun {m n} h => ?_
  rw [hR.registers h]
  exact hR.setRegisters h _

theorem push (a : Int) : Tracks R (push a) := by
  intro m n h
  unfold Machine.push
  rw [hR.stack h]
  cases m.stack.push a with
  | ok s => exact .ok () (hR.setStack h s)
  | error f => exact .error _ h

theorem pop : Tracks R pop := by
  intro m n h
  unfold Machine.pop
  rw [hR.stack h]
  cases m.stack.pop with
  | ok p => exact .ok p.1 (hR.setStack h p.2)
  | error f => exact .error _ h

theorem clearScreen : Tracks R clearScreen := by
  refine .modify fun {m n} h => ?_
  rw [hR.screen h]
  exact hR.setScreen h _

theorem draw (row col : Int) (sprite : List Int) : Tracks R (draw row col sprite) := by
  intro m n h
  unfold Machine.draw
  rw [hR.screen h]
  cases m.screen.draw row col sprite with
  | ok p => exact .ok p.2 (hR.setScreen h p.1)
  | error u => exact .error _ h

theorem heldKey (ha : allowed .heldKey) : Tracks R heldKey := by
  intro m n h
  unfold Machine.heldKey
  rw [hR.keypad ha h]
  cases m.keypad.nibble with
  | ok k => exact .ok k h
  | error f => exact .error _ h

theorem randomByte : Tracks R randomByte := by
  intro m n h
  unfold Machine.randomByte
  rw [hR.random h]
  exact .ok _ (hR.setRandom h _)

theorem compositional : Compositional allowed fun {α} (act : Action α) => Tracks R act where
  pure := .pure
  bind := .bind
  fault _ _ _ h := .error _ h
  fontStart := .reading fun h => congrArg Config.fontStart (hR.config h)
  register := hR.register
  index := .reading (fun h => congrArg Registers.i (hR.registers h)) _ .pure
  counter := .reading (fun h => congrArg Registers.pc (hR.registers h)) _ .pure
  setRegister _ := hR.setRegister
  setFlag _ v := hR.mapRegisters fun r => r.setFlag v
  setIndex _ v := hR.mapRegisters fun r => r.setIndex v
  setCounter _ v := hR.mapRegisters fun r => r.setCounter v
  readCell := hR.readCell
  writeCell := hR.writeCell
  push _ := hR.push
  pop _ := hR.pop
  readDelay ha := .reading (hR.delay ha)
  setDelay _ v := .modify fun h => hR.mapTimers h fun t => t.setDelay v
  setSound _ v := .modify fun h => hR.mapTimers h fun t => t.setSound v
  clearScreen _ := hR.clearScreen
  draw _ := hR.draw
  heldKey := hR.heldKey
  randomByte _ := hR.randomByte

theorem execute {i : Instr} (hi : ∀ p ∈ i.opcode.primitives, allowed p) : Tracks R (execute i) :=
  hR.compositional.execute i hi

theorem rewound {m n m' n' : Machine} (h : R m n) (h' : R m' n') :
    R (m.rewound m') (n.rewound n') := by
  unfold Machine.rewound
  rw [hR.registers h, hR.registers h']
  exact hR.setRegisters h' _

/-- A step has the same outcome if its instruction has. -/
theorem step {m n : Machine} (h : R m n) (hf : n.fetched = m.fetched)
    (hx : ∀ i, m.fetched = .ok i →
      SameOutcome R (Machine.execute i (m.launched i)) (Machine.execute i (n.launched i))) :
    SameOutcome R (Machine.step m) (Machine.step n) := by
  rw [step_eq, step_eq, hf]
  cases hi : m.fetched with
  | error e => exact .error e h
  | ok i =>
    rcases hx i hi with ⟨x, m', n', hm, hn, h'⟩ | ⟨e, m', n', hm, hn, h'⟩
    · simp only [hm, hn]
      exact .ok i h'
    · simp only [hm, hn]
      cases e with
      | fault f => exact .error _ (hR.rewound h h')
      | misuse u => exact .error _ h'

end Coupled

end Chip8.Machine
