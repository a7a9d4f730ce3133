import Chip8.Extent

/-!
# The call stack

A bounded stack of return addresses. `frames` holds them with the latest first,
`entries` shows them oldest first. Nothing remains of an address that was popped.
-/

namespace Chip8

structure CallStack where
  capacity : Int
  frames : List UInt16
  deriving DecidableEq, Repr

namespace CallStack

def empty (capacity : Int) : CallStack :=
  ⟨capacity, []⟩

/-- Room is made at once for every address; a capacity below zero makes none. -/
def create (room : Room) (capacity : Int) : Except Misuse CallStack :=
  (Extent.cells room.slots capacity).map fun _ => empty capacity

def depth (s : CallStack) : Nat :=
  s.frames.length

def entries (s : CallStack) : List UInt16 :=
  s.frames.reverse

def reset (s : CallStack) : CallStack :=
  empty s.capacity

def push (s : CallStack) (address : Int) : Except Fault CallStack :=
  if s.capacity ≤ s.depth then .error (.stackOverflow address s.capacity)
  else .ok { s with frames := UInt16.ofInt address :: s.frames }

def pop (s : CallStack) : Except Fault (UInt16 × CallStack) :=
  match s.frames with
  | [] => .error .stackUnderflow
  | a :: rest => .ok (a, { s with frames := rest })

def peek (s : CallStack) : Except Fault UInt16 :=
  match s.frames with
  | [] => .error .stackUnderflow
  | a :: _ => .ok a

/-! ## New stacks -/

section

variable {room : Room} {capacity : Int}

theorem create_of_held (h : Extent.Held room.slots capacity) :
    create room capacity = .ok (empty capacity) := by
  rw [create, Extent.cells_of_held h]
  rfl

theorem create_of_not_held (h : ¬ Extent.Held room.slots capacity) :
    create room capacity = .error (Extent.refusal capacity) := by
  rw [create, Extent.cells_of_not_held h]
  rfl

theorem eq_empty_of_create {s : CallStack} (h : create room capacity = .ok s) :
    s = empty capacity := by
  by_cases hheld : Extent.Held room.slots capacity
  · rw [create_of_held hheld] at h
    exact (Except.ok.inj h).symm
  · rw [create_of_not_held hheld] at h
    cases h

end

/-! ## The entries after each operation -/

theorem entries_of_push {s t : CallStack} {a : Int} (h : s.push a = .ok t) :
    t.entries = s.entries ++ [UInt16.ofInt a] := by
  simp only [push] at h
  split at h
  · cases h
  · cases h; simp [entries]

theorem entries_of_pop {s t : CallStack} {a : UInt16} (h : s.pop = .ok (a, t)) :
    s.entries = t.entries ++ [a] := by
  simp only [pop] at h
  split at h
  · cases h
  · rename_i h'; cases h; simp [entries, h']

theorem pop_eq_error_iff {s : CallStack} {f : Fault} :
    s.pop = .error f ↔ s.entries = [] ∧ f = .stackUnderflow := by
  simp only [pop, entries, List.reverse_eq_nil_iff]
  split <;> simp_all [eq_comm]

theorem depth_le_of_push {s t : CallStack} {a : Int} (h : s.push a = .ok t) :
    (t.depth : Int) ≤ t.capacity := by
  simp only [push] at h
  split at h
  · cases h
  · cases h; simp only [depth, List.length_cons] at *; omega

theorem capacity_of_push {s t : CallStack} {a : Int} (h : s.push a = .ok t) :
    t.capacity = s.capacity := by
  simp only [push] at h
  split at h
  · cases h
  · cases h; rfl

theorem capacity_of_pop {s t : CallStack} {a : UInt16} (h : s.pop = .ok (a, t)) :
    t.capacity = s.capacity := by
  simp only [pop] at h
  split at h
  · cases h
  · cases h; rfl

end CallStack

end Chip8
