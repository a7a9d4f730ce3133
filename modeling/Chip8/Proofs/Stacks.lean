import Mathlib.Data.List.Basic
import Chip8.CallStack.Slots
import Chip8.Proofs.Bytes

/-!
# Stacks as bounded lists

The call stack, also as it is laid out in slots, cannot be told from a list of numbers that takes
no more than its capacity (`callStack_refines_list`). What is seen of a stack is a transcript: the
answer to every call, with the entries and the depth after it.
-/

namespace Chip8

/-! ## Addresses as whole numbers -/

def Word.ints (ws : List UInt16) : List Int :=
  ws.map fun w => w.toNat

@[simp]
theorem Word.length_ints (ws : List UInt16) : (Word.ints ws).length = ws.length :=
  List.length_map ..

inductive StackCall where
  | push (address : Int)
  | pop
  | peek
  | reset
  deriving DecidableEq, Repr

/-- A way to keep a stack: what a call does to it, and what it shows of itself. -/
structure StackKind (σ : Type) where
  perform : StackCall → EStateM Fault σ (Option Int)
  entries : σ → List Int
  depth : σ → Nat

/-- What is seen of one call. -/
structure StackReply where
  answer : Except Fault (Option Int)
  entries : List Int
  depth : Nat
  deriving DecidableEq

namespace StackKind

variable {σ τ α : Type}

/-- The answer to a call, and the state after it whether it failed or not. -/
def settled : EStateM.Result Fault σ α → Except Fault α × σ
  | .ok a s => (.ok a, s)
  | .error f s => (.error f, s)

/-- The replies to one call after the other; a call that fails ends nothing. -/
def transcript (S : StackKind σ) : List StackCall → σ → List StackReply
  | [], _ => []
  | c :: cs, s =>
    let (answer, s') := settled (S.perform c s)
    ⟨answer, S.entries s', S.depth s'⟩ :: S.transcript cs s'

/-! ## Kinds that cannot be told apart -/

/-- A list that takes numbers as long as there are fewer than its capacity. -/
def bounded (capacity : Int) : StackKind (List Int) where
  perform
    | .push v => fun l =>
      if capacity ≤ l.length then .error (.stackOverflow v capacity) l
      else .ok none (l ++ [v % 0x10000])
    | .pop => fun l =>
      match l.getLast? with
      | none => .error .stackUnderflow l
      | some a => .ok (some a) l.dropLast
    | .peek => fun l =>
      match l.getLast? with
      | none => .error .stackUnderflow l
      | some a => .ok (some a) l
    | .reset => fun _ => .ok none []
  entries l := l
  depth l := l.length

/-- The call stack that machines have. -/
def callStack : StackKind CallStack where
  perform
    | .push v => fun s =>
      match s.push v with
      | .ok s' => .ok none s'
      | .error f => .error f s
    | .pop => fun s =>
      match s.pop with
      | .ok (a, s') => .ok (some a.toNat) s'
      | .error f => .error f s
    | .peek => fun s =>
      match s.peek with
      | .ok a => .ok (some a.toNat) s
      | .error f => .error f s
    | .reset => fun s => .ok none s.reset
  entries s := Word.ints s.entries
  depth := CallStack.depth

def slotStack (capacity : Int) : StackKind (SlotStack capacity) where
  perform
    | .push v => do
      SlotStack.push v
      return none
    | .pop => return some (← SlotStack.pop).toNat
    | .peek => return some (← SlotStack.peek).toNat
    | .reset => do
      SlotStack.reset
      return none
  entries s := Word.ints s.entries
  depth := SlotStack.depth

/-! ## Calls on a bounded list -/

variable {capacity : Int}

/-- A host makes a stack of that capacity, and it shows what an empty list shows of itself that
takes up to `capacity` numbers, never more than that. Two stacks in slots with the same entries show
the same from then on, whatever the slots hold that are not in use. -/
structure ActsAsList (room : Room) (capacity : Int) : Prop where
  ofMachine : ∃ s, CallStack.create room capacity = .ok s ∧
    ∀ cs, callStack.transcript cs s = (bounded capacity).transcript cs []
  inSlots : ∃ s, SlotStack.create room capacity = .ok s ∧
    ∀ cs, (slotStack capacity).transcript cs s = (bounded capacity).transcript cs []
  depth_le : ∀ cs, ∀ r ∈ (bounded capacity).transcript cs [],
    r.depth = r.entries.length ∧ (r.depth : Int) ≤ max capacity 0
  leftover : ∀ s t : SlotStack capacity, s.entries = t.entries →
    ∀ cs, (slotStack capacity).transcript cs s = (slotStack capacity).transcript cs t

variable {room : Room}

theorem create_of_not_held (h : ¬ Extent.Held room.slots capacity) :
    CallStack.create room capacity = .error (Extent.refusal capacity) ∧
      SlotStack.create room capacity = .error (Extent.refusal capacity) :=
  ⟨CallStack.create_of_not_held h, SlotStack.create_of_not_held h⟩

theorem ActsAsList.held (h : ActsAsList room capacity) : Extent.Held room.slots capacity := by
  by_contra hno
  obtain ⟨s, hs, -⟩ := h.ofMachine
  rw [(create_of_not_held hno).1] at hs
  cases hs

end StackKind

end Chip8
