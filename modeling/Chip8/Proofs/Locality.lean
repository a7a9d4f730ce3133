import Chip8.Proofs.Coupling
import Chip8.Proofs.Reset

/-!
# What instructions read

`SameBut a m n` says that two machines differ in cell `a` of memory at most. Most operations track
this, whatever the cell, also those that write: a write stores the same byte in both memories, or
nothing at all. A step looks at the word at the counter and at the cells that its instruction
`Consults`; it makes no difference what all others hold (`step_reads_own_cells`).
-/

namespace Chip8

theorem Opcode.readCell_mem_primitives_iff (o : Opcode) :
    .readCell ∈ o.primitives ↔ o = .draw ∨ o = .reg .load := by
  rcases o with op | op | op | op | op | _ <;> first | (cases op <;> decide) | decide

/-! ## Memories -/

/-- The same size, and the same bytes but for cell `a`. -/
structure Memory.SameBut (a : Nat) (p q : Memory) : Prop where
  size : q.size = p.size
  cell : ∀ k, k ≠ a → q.cell k = p.cell k

namespace Memory.SameBut

variable {a : Nat} {p q : Memory}

theorem has_iff (h : SameBut a p q) (k : Int) : q.Has k ↔ p.Has k := by
  unfold Has
  rw [h.size]

theorem outside (h : SameBut a p q) (k : Int) : q.outside k = p.outside k := by
  unfold Memory.outside
  rw [h.size]

theorem read8 (h : SameBut a p q) {k : Int} (hk : k ≠ a) : q.read8 k = p.read8 k := by
  cases k with
  | ofNat j =>
    have hj : j ≠ a := fun heq => hk (congrArg Int.ofNat heq)
    have hq := q.read8_natCast j
    have hp := p.read8_natCast j
    rw [h.size, h.cell j hj, h.outside] at hq
    exact hq.trans hp.symm
  | negSucc j =>
    have hout (r : Memory) : ¬ r.Has (Int.negSucc j) := fun hr => absurd hr.1 (by omega)
    unfold Memory.read8
    rw [dif_neg (hout q), dif_neg (hout p), h.outside]

theorem set (h : SameBut a p q) (k : Nat) (b : UInt8) : SameBut a (p.set k b) (q.set k b) where
  size := by rw [size_set, size_set, h.size]
  cell j hj := by rw [cell_set, cell_set, h.size, h.cell j hj]

end Memory.SameBut

namespace Machine

variable {a : Nat} {m n : Machine} {i : Instr}

/-! ## Machines -/

/-- Equal but for the byte in cell `a`. -/
def SameBut (a : Nat) (m n : Machine) : Prop :=
  ∃ mem, Memory.SameBut a m.memory mem ∧ n = { m with memory := mem }

/-- Another byte is put into the cell. -/
theorem sameBut_set (m : Machine) (a : Nat) (b : UInt8) :
    SameBut a m { m with memory := m.memory.set a b } := by
  refine ⟨_, ⟨Memory.size_set _ _ _, fun k hk => ?_⟩, rfl⟩
  rw [Memory.cell_set, if_neg fun hc => hk hc.1]

theorem SameBut.fetched (h : SameBut a m n) (hpc : a ≠ m.registers.pc.toNat)
    (hnext : a ≠ m.registers.pc.toNat + 1) : n.fetched = m.fetched := by
  obtain ⟨mem, hmem, rfl⟩ := h
  have hhigh := hmem.read8 (k := m.registers.pc.toNat) (by omega)
  have hlow := hmem.read8 (k := m.registers.pc.toNat + 1) (by omega)
  unfold Machine.fetched Memory.read16
  simp only [hhigh, hlow, hmem.size]

/-! ## Operations -/

namespace SameBut

theorem readCell {k : Int} (hk : k ≠ a) : Tracks (SameBut a) (readCell k) := by
  rintro m n ⟨mem, hmem, rfl⟩
  unfold Machine.readCell
  rw [hmem.read8 hk]
  cases m.memory.read8 k with
  | ok b => exact .ok b ⟨mem, hmem, rfl⟩
  | error f => exact .error _ ⟨mem, hmem, rfl⟩

/-- The cell itself may be written, too: then the two machines become the same. -/
theorem writeCell (k v : Int) : Tracks (SameBut a) (writeCell k v) := by
  rintro m n ⟨mem, hmem, rfl⟩
  unfold Machine.writeCell Memory.write8
  dsimp only
  by_cases hk : m.memory.Has k
  · rw [if_pos hk, if_pos ((hmem.has_iff k).2 hk)]
    exact .ok () ⟨_, hmem.set k.toNat (UInt8.ofInt v), rfl⟩
  · rw [if_neg hk, if_neg fun hc => hk ((hmem.has_iff k).1 hc), hmem.outside]
    exact .error _ ⟨mem, hmem, rfl⟩

theorem coupled (a : Nat) : Coupled (· ≠ .readCell) (SameBut a) where
  config := fun ⟨_, _, h⟩ => by rw [h]
  registers := fun ⟨_, _, h⟩ => by rw [h]
  stack := fun ⟨_, _, h⟩ => by rw [h]
  screen := fun ⟨_, _, h⟩ => by rw [h]
  random := fun ⟨_, _, h⟩ => by rw [h]
  keypad _ := fun ⟨_, _, h⟩ => by rw [h]
  delay _ := fun ⟨_, _, h⟩ => by rw [h]
  readCell h := absurd rfl h
  writeCell _ := writeCell
  setRegisters := fun ⟨mem, hmem, h⟩ _ => ⟨mem, hmem, by rw [h]⟩
  setStack := fun ⟨mem, hmem, h⟩ _ => ⟨mem, hmem, by rw [h]⟩
  setScreen := fun ⟨mem, hmem, h⟩ _ => ⟨mem, hmem, by rw [h]⟩
  setRandom := fun ⟨mem, hmem, h⟩ _ => ⟨mem, hmem, by rw [h]⟩
  mapTimers := fun ⟨mem, hmem, h⟩ _ => ⟨mem, hmem, by rw [h]⟩

theorem readCells {base : Int} {count k : Nat}
    (h : ∀ j : Nat, k ≤ j → j < k + count → base + j ≠ a) :
    Tracks (SameBut a) (readCells base count k) := by
  induction count generalizing k with
  | zero => exact .pure []
  | succ count ih =>
    refine .bind (readCell (h k (Nat.le_refl k) (by omega))) fun b => ?_
    exact .bind (ih fun j hj hlt => h j (by omega) (by omega)) fun bs => .pure (b :: bs)

theorem loadRegisters {base : Int} {count k : Nat}
    (h : ∀ j : Nat, k ≤ j → j < k + count → base + j ≠ a) :
    Tracks (SameBut a) (loadRegisters base count k) := by
  induction count generalizing k with
  | zero => exact .pure ()
  | succ count ih =>
    refine .bind (readCell (h k (Nat.le_refl k) (by omega))) fun b => ?_
    exact .bind ((coupled a).setRegister k _) fun _ => ih fun j hj hlt => h j (by omega) (by omega)

end SameBut

/-! ## Steps -/

/-- The cells that an instruction reads, whether it gets to all of them or not. -/
def Consults (m : Machine) (i : Instr) (a : Nat) : Prop :=
  match i with
  | .draw _ _ n => m.registers.i.toNat ≤ a ∧ (a : Int) < m.registers.i.toNat + n
  | .reg .load x => m.registers.i.toNat ≤ a ∧ (a : Int) ≤ m.registers.i.toNat + x
  | _ => False

/-- The cells of a range are counted from the index register, which both machines share. -/
theorem SameBut.index {α : Type} {k : UInt16 → Action α} (h : SameBut a m n)
    (hk : Tracks (SameBut a) (k m.registers.i)) :
    SameOutcome (SameBut a) ((index >>= k) m) ((index >>= k) n) := by
  obtain ⟨mem, hmem, rfl⟩ := h
  exact hk m _ ⟨mem, hmem, rfl⟩

theorem SameBut.executeDraw {x y r : Int} (h : SameBut a m n)
    (hi : ¬ m.Consults (.draw x y r) a) :
    SameOutcome (SameBut a) (executeDraw x y r m) (executeDraw x y r n) := by
  have hR := (coupled a).compositional
  refine h.index (.bind (readCells fun j _ hj heq => ?_) fun sprite => ?_)
  · apply hi
    constructor <;> omega
  · exact hR.registers₂ y x fun row col => .bind ((coupled a).draw _ _ _) fun erased =>
      hR.setFlag nofun _

theorem SameBut.executeLoad {x : Int} (h : SameBut a m n) (hi : ¬ m.Consults (.reg .load x) a) :
    SameOutcome (SameBut a) (executeReg .load x m) (executeReg .load x n) := by
  refine h.index (loadRegisters fun j _ hj heq => ?_)
  apply hi
  constructor <;> omega

theorem SameBut.execute (h : SameBut a m n) (hi : ¬ m.Consults i a) :
    SameOutcome (SameBut a) (execute i m) (execute i n) := by
  by_cases hread : .readCell ∈ i.opcode.primitives
  · rcases i.opcode.readCell_mem_primitives_iff.1 hread with hop | hop
    · cases i with
      | draw x y r => exact h.executeDraw hi
      | _ => cases hop
    · cases i with
      | reg op x =>
        cases hop
        exact h.executeLoad hi
      | _ => cases hop
  · exact (coupled a).execute (fun p hp heq => hread (heq ▸ hp)) m n h

theorem SameBut.step (h : SameBut a m n) (hpc : a ≠ m.registers.pc.toNat)
    (hnext : a ≠ m.registers.pc.toNat + 1) (hread : ∀ i, m.fetched = .ok i → ¬ m.Consults i a) :
    SameOutcome (SameBut a) (step m) (step n) := by
  refine (coupled a).step h (h.fetched hpc hnext) fun i hf => ?_
  obtain ⟨mem, hmem, rfl⟩ := h
  have hlaunched : SameBut a (m.launched i) (launched { m with memory := mem } i) :=
    ⟨mem, hmem, rfl⟩
  apply hlaunched.execute
  cases i <;> exact hread _ hf

/-- A step reads no memory but its own. Let `a` be the address of neither byte of the word at the
counter and, if that word draws a sprite or loads registers, of none of the bytes for these. Then it
does not matter to a step what byte is in cell `a`. With another byte there, the step succeeds with
the same instruction or fails with the same fault, and leaves the same machine but for this one
byte of memory. -/
theorem step_reads_own_cells (m : Machine) (a : Nat) (b : UInt8) (hpc : a ≠ m.registers.pc.toNat)
    (hnext : a ≠ m.registers.pc.toNat + 1) (hread : ∀ i, m.fetched = .ok i → ¬ m.Consults i a) :
    SameOutcome (SameBut a) (step m) (step { m with memory := m.memory.set a b }) :=
  (sameBut_set m a b).step hpc hnext hread

/-- A load of four registers from the last cell of memory. -/
def overreaching : List UInt8 :=
  [0xA0, 0x5F, 0xF3, 0x65]

/-- One register is loaded before the step fails; the byte before the range plays no part. -/
theorem step_reads_own_cells_overreaching :
    ∃ m n n', m.Reachable ∧ m.fetched = .ok (.reg .load 3) ∧ m.memory.cell 94 = 0 ∧
      step m = .error (.fault (.addressOutOfBounds 96 96)) n ∧ n.registers.v.get 0 = 7 ∧
      step { m with memory := m.memory.set 94 9 } =
        .error (.fault (.addressOutOfBounds 96 96)) n' ∧
      SameBut 94 n n' := by
  obtain ⟨m, hm, hcheck⟩ := exists_reachable small
    [.load overreaching none, .poke 95 7, .step]
    (fun m => decide (m.registers.pc.toNat = 86 ∧ m.registers.i.toNat = 95 ∧
        m.memory.cell 94 = 0) &&
      match m.fetched, step m with
      | .ok i, .error e n => decide (i = .reg .load 3 ∧
          e = .fault (.addressOutOfBounds 96 96) ∧ n.registers.v.get 0 = 7)
      | _, _ => false)
    (by decide) (by decide +kernel)
  obtain ⟨hregs, hcheck⟩ := Bool.and_eq_true_iff.1 hcheck
  obtain ⟨hpc, hindex, hcell⟩ := of_decide_eq_true hregs
  split at hcheck
  · rename_i i e n hf hs
    obtain ⟨rfl, rfl, hloaded⟩ := of_decide_eq_true hcheck
    have hread : ∀ i, m.fetched = .ok i → ¬ m.Consults i 94 := by
      intro i hi hc
      rw [hf] at hi
      cases hi
      exact absurd hc.1 (by rw [hindex]; decide)
    rcases step_reads_own_cells m 94 9 (by rw [hpc]; decide) (by rw [hpc]; decide) hread with
      ⟨x, s, t, hok, -, -⟩ | ⟨e, s, t, herr, herr', hst⟩
    · rw [hs] at hok
      cases hok
    · rw [hs] at herr
      cases herr
      exact ⟨m, n, t, hm, hf, hcell, hs, hloaded, herr', hst⟩
  · cases hcheck

end Machine

end Chip8
