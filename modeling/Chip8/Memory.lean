import Chip8.Extent

/-!
# Memory

An array of byte cells with bounds-checked access: every operation that names
an address outside the array is a fault, and a failed operation changes nothing.
`load` copies a whole image and checks its two ends; an empty image has no ends
and is loaded anywhere. The copy itself is a `splice`, which takes any bounds and
could leave more cells or fewer. Between ends that have passed the check it does
not (`size_splice`), so the size of memory is the number of its cells throughout.
-/

namespace Chip8

structure Memory where
  cells : Array UInt8
  deriving DecidableEq, Repr

namespace Memory

def size (m : Memory) : Nat :=
  m.cells.size

def zeros (n : Nat) : Memory :=
  ⟨Array.replicate n 0⟩

def create (room : Room) (n : Int) : Except Misuse Memory :=
  if Extent.IsWord n ∧ n < 0 then .error .negativeSize
  else (Extent.cells room.bytes n).map zeros

/-- `a` is the address of a cell. -/
def Has (m : Memory) (a : Int) : Prop :=
  0 ≤ a ∧ a < m.size

instance (m : Memory) (a : Int) : Decidable (m.Has a) :=
  inferInstanceAs (Decidable (_ ∧ _))

theorem Has.toNat_lt {m : Memory} {a : Int} (h : m.Has a) : a.toNat < m.cells.size := by
  have := h.1; have := h.2; simp only [size] at this; omega

def outside (m : Memory) (a : Int) : Fault :=
  .addressOutOfBounds a m.size

def read8 (m : Memory) (a : Int) : Except Fault UInt8 :=
  if h : m.Has a then
    have := h.toNat_lt
    .ok m.cells[a.toNat]
  else .error (m.outside a)

def set (m : Memory) (k : Nat) (b : UInt8) : Memory :=
  ⟨m.cells.setIfInBounds k b⟩

def write8 (m : Memory) (a value : Int) : Except Fault Memory :=
  if m.Has a then .ok (m.set a.toNat (UInt8.ofInt value)) else .error (m.outside a)

/-- Two cells as one number, the high byte first. -/
def read16 (m : Memory) (a : Int) : Except Fault Nat := do
  let high ← m.read8 a
  let low ← m.read8 (a + 1)
  return 256 * high.toNat + low.toNat

/-- A slice bound as an index from 0 to the size; a negative one counts from the end. -/
def bound (m : Memory) (k : Int) : Nat :=
  if k < 0 then (k + m.size).toNat else min k.toNat m.size

/-- Puts bytes, however many, in the place of the cells between two bounds; bounds that cross have
none between them. -/
def splice (m : Memory) (start stop : Int) (data : List UInt8) : Memory :=
  let first := m.bound start
  let last := max first (m.bound stop)
  ⟨⟨m.cells.toList.take first ++ data ++ m.cells.toList.drop last⟩⟩

def load (m : Memory) (data : List UInt8) (base : Int) : Except Fault Memory :=
  let last := base + data.length - 1
  if data ≠ [] ∧ ¬ m.Has base then .error (m.outside base)
  else if data ≠ [] ∧ ¬ m.Has last then .error (m.outside last)
  else .ok (m.splice base (base + data.length) data)

/-- The cells from `start` to `last`, both included; the last cell of memory unless given. -/
def snapshot (m : Memory) (start : Int) (last? : Option Int) : Except Fault (List UInt8) :=
  let last := last?.getD (m.size - 1)
  if ¬ m.Has start then .error (m.outside start)
  else if ¬ m.Has last then .error (m.outside last)
  else .ok (m.cells.extract start.toNat (last + 1).toNat).toList

/-! ## New memories -/

section

variable {room : Room} {n : Int}

theorem create_of_held (h0 : 0 ≤ n) (h : Extent.Held room.bytes n) :
    create room n = .ok (zeros n.toNat) := by
  rw [create, if_neg fun hneg => absurd hneg.2 (Int.not_lt.2 h0), Extent.cells_of_held h]
  rfl

theorem create_of_not_held (h0 : 0 ≤ n) (h : ¬ Extent.Held room.bytes n) :
    create room n = .error (Extent.refusal n) := by
  rw [create, if_neg fun hneg => absurd hneg.2 (Int.not_lt.2 h0), Extent.cells_of_not_held h]
  rfl

theorem create_eq_ok_iff {m : Memory} :
    create room n = .ok m ↔ 0 ≤ n ∧ Extent.Held room.bytes n ∧ m = zeros n.toNat := by
  by_cases h0 : 0 ≤ n
  · by_cases hheld : Extent.Held room.bytes n
    · rw [create_of_held h0 hheld]
      exact ⟨fun h => ⟨h0, hheld, (Except.ok.inj h).symm⟩, fun h => congrArg Except.ok h.2.2.symm⟩
    · rw [create_of_not_held h0 hheld]
      exact ⟨(nomatch ·), fun h => absurd h.2.1 hheld⟩
  · refine ⟨fun h => ?_, fun h => absurd h.1 h0⟩
    unfold create at h
    by_cases hw : Extent.IsWord n
    · rw [if_pos ⟨hw, Int.not_le.1 h0⟩] at h
      cases h
    · rw [if_neg fun hneg => hw hneg.1, Extent.cells_of_not_held fun hheld => hw hheld.1] at h
      cases h

end

/-! ## Sizes and cells -/

@[simp] theorem size_zeros (n : Nat) : (zeros n).size = n := by
  simp [zeros, size]

@[simp] theorem size_set (m : Memory) (k : Nat) (b : UInt8) : (m.set k b).size = m.size := by
  simp [set, size]

theorem size_of_write8 {m m' : Memory} {a v : Int} (h : m.write8 a v = .ok m') :
    m'.size = m.size := by
  simp only [write8] at h
  split at h
  · cases h; simp
  · cases h

/-! ## Slices in range -/

theorem bound_of_le {m : Memory} {k : Int} (h0 : 0 ≤ k) (h : k ≤ m.size) :
    m.bound k = k.toNat := by
  unfold bound
  rw [if_neg (Int.not_lt.2 h0)]
  omega

/-- No bytes in the place of no cells. -/
theorem splice_nil (m : Memory) (k : Int) : m.splice k k [] = m := by
  simp only [splice, Nat.max_self, List.append_nil, List.take_append_drop, Array.toArray_toList]

/-- In range, the bytes take the place of as many cells. -/
theorem toList_splice {m : Memory} {data : List UInt8} {base : Int} (h0 : 0 ≤ base)
    (h : base + data.length ≤ m.size) :
    (m.splice base (base + data.length) data).cells.toList =
      m.cells.toList.take base.toNat ++ data ++
        m.cells.toList.drop (base.toNat + data.length) := by
  have hfirst : m.bound base = base.toNat := bound_of_le h0 (by omega)
  have hlast : m.bound (base + data.length) = base.toNat + data.length := by
    rw [bound_of_le (by omega) h]
    omega
  simp only [splice, hfirst, hlast, Nat.max_eq_right (Nat.le_add_right _ _)]

theorem size_splice {m : Memory} {data : List UInt8} {base : Int} (h0 : 0 ≤ base)
    (h : base + data.length ≤ m.size) :
    (m.splice base (base + data.length) data).size = m.size := by
  have hlist := congrArg List.length (toList_splice h0 h)
  simp only [List.length_append, List.length_take, List.length_drop, Array.length_toList] at hlist
  simp only [size] at h hlist ⊢
  omega

/-- Both ends are checked, unless there are none, and then the image is in range. -/
theorem load_cases {m m' : Memory} {data : List UInt8} {base : Int}
    (h : m.load data base = .ok m') :
    (data = [] ∧ m' = m) ∨ (0 ≤ base ∧ base + data.length ≤ m.size ∧
      m' = m.splice base (base + data.length) data) := by
  simp only [load] at h
  by_cases hnil : data = []
  · subst hnil
    rw [if_neg fun hc => hc.1 rfl, if_neg fun hc => hc.1 rfl] at h
    cases h
    exact .inl ⟨rfl, by rw [List.length_nil, Int.natCast_zero, Int.add_zero, splice_nil]⟩
  · split at h
    · cases h
    · rename_i hfirst
      split at h
      · cases h
      · rename_i hlast
        have hbase := Decidable.byContradiction fun hc => hfirst ⟨hnil, hc⟩
        have hend := Decidable.byContradiction fun hc => hlast ⟨hnil, hc⟩
        cases h
        exact .inr ⟨hbase.1, by have := hend.2; omega, rfl⟩

theorem size_of_load {m m' : Memory} {data : List UInt8} {base : Int}
    (h : m.load data base = .ok m') : m'.size = m.size := by
  rcases load_cases h with ⟨-, rfl⟩ | ⟨h0, hroom, rfl⟩
  · rfl
  · exact size_splice h0 hroom

end Memory

end Chip8
