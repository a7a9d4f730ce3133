import Chip8.Proofs.Closure
import Chip8.Proofs.Step

/-!
# Parts of a machine

`Part` names the components that instructions work on, and `Part.writers` the opcodes that are there
to change each, read off the operations that they use. An instruction that is not one of the writers
of a part keeps it (`kept_of_execute`).
-/

namespace Chip8

inductive Part where
  | registers
  | index
  | memory
  | stack
  | delay
  | sound
  | screen
  | random
  | keypad
  deriving DecidableEq, Repr

/-- What an operation on a component changes. The counter is none of the parts: every step moves
it. -/
def Primitive.part? : Primitive → Option Part
  | setRegister => some .registers
  | setFlag => some .registers
  | setIndex => some .index
  | setCounter => none
  | readCell => none
  | writeCell => some .memory
  | push => some .stack
  | pop => some .stack
  | readDelay => none
  | setDelay => some .delay
  | setSound => some .sound
  | clearScreen => some .screen
  | draw => some .screen
  | heldKey => none
  | randomByte => some .random

def Opcode.parts (o : Opcode) : List Part :=
  o.primitives.filterMap Primitive.part?

namespace Part

/-- The opcodes that change a part. -/
def writers : Part → List Opcode
  | registers =>
    [.byte .load, .byte .add, .byte .random, .pair .copy, .pair .or, .pair .and, .pair .xor,
      .pair .add, .pair .sub, .pair .subFrom, .reg .shiftRight, .reg .shiftLeft, .reg .getDelay,
      .reg .waitKey, .reg .load, .draw]
  | index => [.addr .setIndex, .reg .addIndex, .reg .glyph]
  | memory => [.reg .storeDecimal, .reg .dump]
  | stack => [.addr .call, .plain .ret]
  | delay => [.reg .setDelay]
  | sound => [.reg .setSound]
  | screen => [.plain .clear, .draw]
  | random => [.byte .random]
  | keypad => []

theorem mem_writers_of_mem_all : ∀ o ∈ Opcode.all, ∀ q ∈ o.parts, o ∈ q.writers := by
  decide

theorem mem_writers {q : Part} {o : Opcode} (h : q ∈ o.parts) : o ∈ q.writers :=
  mem_writers_of_mem_all o o.mem_all q h

/-- The part is the same in both machines. -/
def Kept (q : Part) (m n : Machine) : Prop :=
  match q with
  | registers => n.registers.v = m.registers.v
  | index => n.registers.i = m.registers.i
  | memory => n.memory = m.memory
  | stack => n.stack = m.stack
  | delay => n.timers.delay = m.timers.delay
  | sound => n.timers.sound = m.timers.sound
  | screen => n.screen = m.screen
  | random => n.random = m.random
  | keypad => n.keypad = m.keypad

theorem kept_refl (q : Part) (m : Machine) : q.Kept m m := by
  cases q <;> rfl

theorem Kept.trans {q : Part} {m n o : Machine} (h : q.Kept m n) (h' : q.Kept n o) :
    q.Kept m o := by
  cases q <;> exact Eq.trans h' h

/-- Operations on other parts keep a part. -/
theorem closedOn_kept (q : Part) : Machine.ClosedOn (fun p => p.part? ≠ some q) q.Kept where
  refl := q.kept_refl
  trans := Kept.trans
  setRegister h m s b := by cases q <;> first | rfl | exact absurd rfl h
  setFlag h m v := by cases q <;> first | rfl | exact absurd rfl h
  setIndex h m v := by cases q <;> first | rfl | exact absurd rfl h
  setCounter _ m v := by cases q <;> rfl
  write h m a v mem _ := by cases q <;> first | rfl | exact absurd rfl h
  push h m a s _ := by cases q <;> first | rfl | exact absurd rfl h
  pop h m a s _ := by cases q <;> first | rfl | exact absurd rfl h
  setDelay h m v := by cases q <;> first | rfl | exact absurd rfl h
  setSound h m v := by cases q <;> first | rfl | exact absurd rfl h
  clear h m := by cases q <;> first | rfl | exact absurd rfl h
  draw h m row col bs s b _ := by cases q <;> first | rfl | exact absurd rfl h
  random h m := by cases q <;> first | rfl | exact absurd rfl h

theorem kept_launched (q : Part) (m : Machine) (i : Instr) : q.Kept m (m.launched i) := by
  cases q <;> rfl

end Part

namespace Machine

variable {m n : Machine} {i : Instr} {q : Part}

/-- Whatever comes of it, an instruction keeps the parts that its opcode does not write. -/
theorem kept_after_execute (hq : i.opcode ∉ q.writers) (m : Machine) :
    q.Kept m (after (execute i) m) := by
  have hallowed : ∀ p ∈ i.opcode.primitives, p.part? ≠ some q := fun p hp heq =>
    hq (Part.mem_writers (List.mem_filterMap.2 ⟨p, hp, heq⟩))
  exact q.closedOn_kept.execute hallowed m

theorem kept_of_execute (hq : i.opcode ∉ q.writers) (h : execute i (m.launched i) = .ok () n) :
    q.Kept m n := by
  have hkept := kept_after_execute hq (m.launched i)
  rw [after_of_ok h] at hkept
  exact (q.kept_launched m i).trans hkept

end Machine

end Chip8
