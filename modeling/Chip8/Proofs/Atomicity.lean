import Chip8.Proofs.Failing
import Chip8.Proofs.Step

/-!
# A failed step undoes itself

After a step that ends in a fault the machine is as it was before, with its counter back on the
instruction, but for what `Committed` lists: a transfer that starts inside memory and runs out
of it keeps the cells or registers that it has already moved.
-/

namespace Chip8

/-- The instructions that move data between registers and memory. -/
def Instr.IsTransfer : Instr → Prop
  | .reg op _ => op = .storeDecimal ∨ op = .dump ∨ op = .load
  | _ => False

/-- The instructions that read or write memory at the index register. -/
def Instr.UsesIndex : Instr → Prop
  | .draw _ _ _ => True
  | i => i.IsTransfer

theorem Instr.IsTransfer.usesIndex {i : Instr} (h : i.IsTransfer) : i.UsesIndex := by
  cases i <;> first | exact h | exact h.elim

namespace Machine

/-- `m'` is `m` but for its byte registers, memory and trace. -/
structure SameAround (m m' : Machine) : Prop where
  config : m'.config = m.config
  counter : m'.registers.pc = m.registers.pc
  index : m'.registers.i = m.registers.i
  stack : m'.stack = m.stack
  timers : m'.timers = m.timers
  screen : m'.screen = m.screen
  keypad : m'.keypad = m.keypad
  random : m'.random = m.random
  breakpoints : m'.breakpoints = m.breakpoints
  tracing : m'.tracing = m.tracing
  lastFault : m'.lastFault = m.lastFault

/-- What an instruction that ends in `f` has done to the byte registers and memory of `m`:
nothing, unless it is a transfer that starts inside memory. -/
inductive Committed (m m' : Machine) (f : Fault) : Instr → Prop where
  | nothing {i : Instr} (outside : i.IsTransfer → m.memory.size ≤ m.registers.i.toNat)
      (registers : m'.registers.v = m.registers.v) (memory : m'.memory = m.memory) :
      Committed m m' f i
  /-- The first digits of a register are stored. -/
  | decimal (x : Fin 16) (inside : m.registers.i.toNat < m.memory.size)
      (short : m.memory.size < m.registers.i.toNat + 3)
      (fault : f = .addressOutOfBounds m.memory.size m.memory.size)
      (registers : m'.registers.v = m.registers.v) (size : m'.memory.size = m.memory.size)
      (stored : ∀ k < m.memory.size, m'.memory.cell k =
        if m.registers.i.toNat ≤ k then
          UInt8.ofInt ((Arith.decimalDigits (m.registers.v.get x).toNat).getD
            (k - m.registers.i.toNat) 0)
        else m.memory.cell k) :
      Committed m m' f (.reg .storeDecimal x.val)
  /-- The first registers are stored. -/
  | dump (x : Fin 16) (inside : m.registers.i.toNat < m.memory.size)
      (short : m.memory.size ≤ m.registers.i.toNat + x.val)
      (fault : f = .addressOutOfBounds m.memory.size m.memory.size)
      (registers : m'.registers.v = m.registers.v) (size : m'.memory.size = m.memory.size)
      (stored : ∀ s : Fin 16, m.registers.i.toNat + s.val < m.memory.size →
        m'.memory.cell (m.registers.i.toNat + s.val) = m.registers.v.get s)
      (kept : ∀ k < m.registers.i.toNat, m'.memory.cell k = m.memory.cell k) :
      Committed m m' f (.reg .dump x.val)
  /-- The first registers are loaded. -/
  | load (x : Fin 16) (inside : m.registers.i.toNat < m.memory.size)
      (short : m.memory.size ≤ m.registers.i.toNat + x.val)
      (fault : f = .addressOutOfBounds m.memory.size m.memory.size)
      (loaded : ∀ s : Fin 16, m'.registers.v.get s =
        if m.registers.i.toNat + s.val < m.memory.size then
          m.memory.cell (m.registers.i.toNat + s.val)
        else m.registers.v.get s)
      (memory : m'.memory = m.memory) :
      Committed m m' f (.reg .load x.val)

/-! ## The part of a transfer that lies inside memory -/

/-- An image that reaches the end of memory fills it from the index register on. -/
theorem cell_storeClipped {m : Machine} {bs : List UInt8} {k : Nat}
    (h : m.memory.size ≤ m.registers.i.toNat + bs.length) (hk : k < m.memory.size) :
    (m.storeClipped bs).memory.cell k =
      if m.registers.i.toNat ≤ k then bs.getD (k - m.registers.i.toNat) 0
      else m.memory.cell k := by
  unfold storeClipped
  by_cases hi : m.registers.i.toNat < m.memory.size
  · have hlen : (bs.take (m.memory.size - m.registers.i.toNat)).length =
        m.memory.size - m.registers.i.toNat := by
      rw [List.length_take]; omega
    rw [Memory.cell_place _ _ _ _ (by omega), hlen]
    by_cases hik : m.registers.i.toNat ≤ k
    · rw [if_pos ⟨hik, by omega⟩, if_pos hik, List.getD_eq_getElem?_getD,
        List.getElem?_take_of_lt (by omega), ← List.getD_eq_getElem?_getD]
    · rw [if_neg (fun hc => hik hc.1), if_neg hik]
  · rw [if_neg (by omega), show m.memory.size - m.registers.i.toNat = 0 by omega, List.take_zero]
    rfl

/-- A transfer that starts outside memory stores nothing. -/
theorem storeClipped_of_le {m : Machine} {bs : List UInt8}
    (h : m.memory.size ≤ m.registers.i.toNat) : m.storeClipped bs = m := by
  unfold storeClipped
  rw [show m.memory.size - m.registers.i.toNat = 0 by omega, List.take_zero]
  rfl

theorem loadClipped_of_le {m : Machine} (h : m.memory.size ≤ m.registers.i.toNat) :
    m.loadClipped = m := by
  unfold loadClipped
  rw [Registers.fill_of_le (by omega)]

theorem get_loadClipped (m : Machine) (s : Fin 16) :
    m.loadClipped.registers.v.get s =
      if m.registers.i.toNat + s.val < m.memory.size then
        m.memory.cell (m.registers.i.toNat + s.val)
      else m.registers.v.get s := by
  unfold loadClipped
  rw [Registers.get_fill]
  by_cases h : m.registers.i.toNat + s.val < m.memory.size
  · rw [if_pos h, if_pos ⟨Nat.zero_le _, by omega⟩]
  · rw [if_neg h, if_neg (by omega)]

theorem memory_loadClipped (m : Machine) : m.loadClipped.memory = m.memory := by
  unfold loadClipped
  rfl

theorem transferFault_of_inside {size a : Nat} {f : Fault} (h : a < size)
    (hf : .fault f = transferFault size a) : f = .addressOutOfBounds size size := by
  unfold transferFault at hf
  rw [Nat.max_eq_right (Nat.le_of_lt h)] at hf
  exact Failure.fault.inj hf

/-! ## Every way to fail -/

section

variable {m m' : Machine} {i : Instr} {e : Failure} {f : Fault}

theorem SameAround.refl (m : Machine) : SameAround m m :=
  ⟨rfl, rfl, rfl, rfl, rfl, rfl, rfl, rfl, rfl, rfl, rfl⟩

theorem sameAround_storeClipped (m : Machine) (bs : List UInt8) :
    SameAround m (m.storeClipped bs) :=
  ⟨rfl, rfl, rfl, rfl, rfl, rfl, rfl, rfl, rfl, rfl, rfl⟩

theorem sameAround_loadClipped (m : Machine) : SameAround m m.loadClipped := by
  unfold loadClipped Registers.fill
  exact ⟨rfl, rfl, rfl, rfl, rfl, rfl, rfl, rfl, rfl, rfl, rfl⟩

theorem Fails.sameAround (h : Fails m i e m') : SameAround m m' := by
  cases h with
  | decimal _ _ => exact sameAround_storeClipped m _
  | dump _ _ => exact sameAround_storeClipped m _
  | load _ _ => exact sameAround_loadClipped m
  | _ => exact .refl m

theorem Fails.address_eq (h : Fails m i e m') (hi : i.UsesIndex) :
    e = transferFault m.memory.size m.registers.i.toNat := by
  cases h with
  | underflow _ => exact hi.elim
  | overflow _ _ => exact hi.elim
  | key op _ _ hop _ _ => rcases hi with rfl | rfl | rfl <;> simp at hop
  | sprite _ _ => rcases hi with hi | hi | hi <;> cases hi
  | draw _ _ _ _ => rfl
  | decimal _ _ => rfl
  | dump _ _ => rfl
  | load _ _ => rfl

theorem committed_of_not_isTransfer (hi : ¬ i.IsTransfer) (h : Fails m i e m') :
    Committed m m' f i := by
  cases h with
  | decimal _ _ => exact (hi (.inl rfl)).elim
  | dump _ _ => exact (hi (.inr (.inl rfl))).elim
  | load _ _ => exact (hi (.inr (.inr rfl))).elim
  | _ => exact .nothing (fun ht => (hi ht).elim) rfl rfl

theorem committed_of_outside (hle : m.memory.size ≤ m.registers.i.toNat) (h : Fails m i e m') :
    Committed m m' f i := by
  have hn : m' = m := by
    cases h with
    | decimal _ _ => exact storeClipped_of_le hle
    | dump _ _ => exact storeClipped_of_le hle
    | load _ _ => exact loadClipped_of_le hle
    | _ => rfl
  subst hn
  exact .nothing (fun _ => hle) rfl rfl

theorem Fails.committed (h : Fails m i (.fault f) m') : Committed m m' f i := by
  by_cases hi : i.IsTransfer
  · by_cases hlt : m.registers.i.toNat < m.memory.size
    · have hf : f = .addressOutOfBounds m.memory.size m.memory.size :=
        transferFault_of_inside hlt (h.address_eq hi.usesIndex)
      generalize Failure.fault f = e at h
      cases h with
      | decimal s h =>
        refine .decimal s hlt h hf rfl (Memory.size_place _ _ _) fun k hk => ?_
        rw [cell_storeClipped (by simp [Arith.decimalDigits]; omega) hk, Byte.getD_map_ofInt]
      | dump s h =>
        refine .dump s hlt (by omega) hf rfl (Memory.size_place _ _ _) (fun t ht => ?_)
          fun k hk => ?_
        · rw [cell_storeClipped (by simp; omega) ht, if_pos (by omega)]
          simp [Registers.get_mk m.registers.v t.isLt]
        · rw [cell_storeClipped (by simp; omega) (by omega), if_neg (by omega)]
      | load s h => exact .load s hlt (by omega) hf (get_loadClipped m) (memory_loadClipped m)
      | key op _ _ hop _ _ => rcases hi with rfl | rfl | rfl <;> simp at hop
      | sprite _ _ => rcases hi with hi | hi | hi <;> cases hi
      | _ => exact hi.elim
    · exact committed_of_outside (Nat.not_lt.1 hlt) h
  · exact committed_of_not_isTransfer hi h

/-- The commitments of the launched machine, whose counter has moved on, are those of `m`. -/
theorem Committed.rewound {n : Machine} (h : Committed (m.launched i) n f i) :
    Committed m (m.rewound n) f i := by
  cases h with
  | nothing outside registers memory => exact .nothing outside registers memory
  | decimal x inside short fault registers size stored =>
    exact .decimal x inside short fault registers size stored
  | dump x inside short fault registers size stored kept =>
    exact .dump x inside short fault registers size stored kept
  | load x inside short fault loaded memory => exact .load x inside short fault loaded memory

theorem SameAround.rewound {n : Machine} (h : SameAround (m.launched i) n) :
    SameAround m (m.rewound n) where
  config := h.config
  counter := Word.ofInt_toNat m.registers.pc
  index := h.index
  stack := h.stack
  timers := h.timers
  screen := h.screen
  keypad := h.keypad
  random := h.random
  breakpoints := h.breakpoints
  tracing := h.tracing
  lastFault := h.lastFault

/-- A step that ends in a fault leaves everything but byte registers, memory and trace as it
was. If no instruction was fetched, these registers and memory are as before, too; if one was,
what it has done to them is `Committed`, and where it works at the index register it has failed
there or at the end of memory, whichever is higher. -/
theorem step_fault_atomic (h : step m = .error (.fault f) m') :
    SameAround m m' ∧
    ((fetch m = .error (.fault f) m ∧ m'.registers.v = m.registers.v ∧ m'.memory = m.memory) ∨
      ∃ i, fetch m = .ok i m ∧ Committed m m' f i ∧
        (i.UsesIndex → f = .addressOutOfBounds
          (max m.registers.i.toNat m.memory.size : Nat) m.memory.size)) := by
  rcases step_eq_fault_iff.1 h with ⟨hf, rfl⟩ | ⟨i, n, hf, hx, rfl⟩
  · refine ⟨.refl m', .inl ⟨?_, rfl, rfl⟩⟩
    rw [fetch_eq, hf]
  · have hfail := fails_of_execute (fits_of_fetched hf) hx
    refine ⟨hfail.sameAround.rewound, .inr ⟨i, fetch_eq_ok_iff.2 ⟨hf, rfl⟩, ?_, fun hi => ?_⟩⟩
    · exact hfail.committed.rewound
    · exact Failure.fault.inj (hfail.address_eq hi)

end

/-- Four cells of memory that hold a dump of three registers to the last two of them. -/
def cutShort : Machine where
  config := {}
  registers := ⟨#v[0xA1, 0xA2, 0xA3, 0, 0, 0, 0, 0, 0, 0, 0, 0, 0, 0, 0, 0], 2, 0⟩
  memory := ⟨#[0xF2, 0x55, 0, 0]⟩
  stack := .empty 16
  timers := .stopped
  screen := .blank 64 32
  keypad := .idle
  random := ⟨#[], 0⟩
  breakpoints := []
  tracing := false
  trace := #[]
  lastFault := none

/-- Two of the three registers are stored before the step fails. -/
theorem step_fault_atomic_cutShort :
    step cutShort = .error (.fault (.addressOutOfBounds 4 4))
      { cutShort with memory := ⟨#[0xF2, 0x55, 0xA1, 0xA2]⟩ } ∧
    SameAround cutShort { cutShort with memory := ⟨#[0xF2, 0x55, 0xA1, 0xA2]⟩ } ∧
    ∃ i, fetch cutShort = .ok i cutShort ∧
      Committed cutShort { cutShort with memory := ⟨#[0xF2, 0x55, 0xA1, 0xA2]⟩ }
        (.addressOutOfBounds 4 4) i := by
  have hstep : step cutShort = .error (.fault (.addressOutOfBounds 4 4))
      { cutShort with memory := ⟨#[0xF2, 0x55, 0xA1, 0xA2]⟩ } := rfl
  obtain ⟨hsame, ⟨hf, -, -⟩ | ⟨i, hf, hc, -⟩⟩ := step_fault_atomic hstep
  · cases hf
  · exact ⟨hstep, hsame, i, hf, hc⟩

end Machine

end Chip8
