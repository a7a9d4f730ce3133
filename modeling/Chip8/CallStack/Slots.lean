import Chip8.CallStack

/-!
# The call stack in slots

The stack as it is laid out: as many slots as it may hold addresses, and a count of those in use.
A slot that falls out of use keeps what it held. The count never exceeds the number of slots, so
every access that the count leads to finds its slot.
-/

namespace Chip8

structure SlotStack (capacity : Int) where
  slots : Vector UInt16 capacity.toNat
  /-- How many slots hold an address, from the first on. -/
  used : Nat
  used_le : used ≤ capacity.toNat
  deriving DecidableEq, Repr

namespace SlotStack

variable {capacity : Int}

def fresh (capacity : Int) : SlotStack capacity :=
  ⟨.replicate _ 0, 0, Nat.zero_le _⟩

def create (room : Room) (capacity : Int) : Except Misuse (SlotStack capacity) :=
  (Extent.cells room.slots capacity).map fun _ => fresh capacity

def depth (s : SlotStack capacity) : Nat :=
  s.used

/-- The slots in use, the oldest address first. -/
def entries (s : SlotStack capacity) : List UInt16 :=
  s.slots.toList.take s.used

theorem index_lt {s : SlotStack capacity} (h : s.used ≠ 0) : s.used - 1 < capacity.toNat :=
  Nat.lt_of_lt_of_le (Nat.pred_lt h) s.used_le

theorem used_lt {s : SlotStack capacity} (h : ¬ capacity ≤ s.used) : s.used < capacity.toNat := by
  omega

/-- The latest address. -/
def top (s : SlotStack capacity) (h : s.used ≠ 0) : UInt16 :=
  s.slots.get ⟨s.used - 1, index_lt h⟩

/-- The first free slot taken for an address. -/
def put (s : SlotStack capacity) (address : Int) (h : ¬ capacity ≤ s.used) :
    SlotStack capacity where
  slots := s.slots.set s.used (UInt16.ofInt address) (used_lt h)
  used := s.used + 1
  used_le := used_lt h

/-- One slot less in use; what it holds stays there. -/
def dropTop (s : SlotStack capacity) (h : s.used ≠ 0) : SlotStack capacity where
  slots := s.slots
  used := s.used - 1
  used_le := Nat.le_of_lt (index_lt h)

/-! ## The operations -/

def push (address : Int) : EStateM Fault (SlotStack capacity) Unit := fun s =>
  if h : capacity ≤ s.used then .error (.stackOverflow address capacity) s
  else .ok () (s.put address h)

def pop : EStateM Fault (SlotStack capacity) UInt16 := fun s =>
  if h : s.used = 0 then .error .stackUnderflow s
  else .ok (s.top h) (s.dropTop h)

def peek : EStateM Fault (SlotStack capacity) UInt16 := fun s =>
  if h : s.used = 0 then .error .stackUnderflow s
  else .ok (s.top h) s

/-- All slots are made anew. -/
def reset : EStateM Fault (SlotStack capacity) Unit := fun _ =>
  .ok () (fresh capacity)

/-! ## New stacks -/

theorem create_of_held {room : Room} (h : Extent.Held room.slots capacity) :
    create room capacity = .ok (fresh capacity) := by
  rw [create, Extent.cells_of_held h]
  rfl

theorem create_of_not_held {room : Room} (h : ¬ Extent.Held room.slots capacity) :
    create room capacity = .error (Extent.refusal capacity) := by
  rw [create, Extent.cells_of_not_held h]
  rfl

/-! ## The entries after each operation -/

end SlotStack

end Chip8
