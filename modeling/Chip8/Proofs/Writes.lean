import Chip8.Proofs.Parts
import Chip8.Proofs.Stores
import Chip8.Proofs.Transfer
import Chip8.Proofs.Visits

/-!
# The cells that a session writes

`Writes` says which cells a command writes: those of the image or value that it stores, or those
that its instructions reach from the index register. Every other cell stays as it is, whether the
command succeeds or fails (`sameCell_perform`), and so along a session (`cell_session`).
-/

namespace Chip8

/-- How many cells an instruction writes from the index register on, where memory has them. -/
def Instr.written : Instr → Nat
  | .reg .storeDecimal x => if (Registers.slot? x).isSome then 3 else 0
  | .reg .dump x => min (x + 1).toNat 16
  | _ => 0

/-- The store succeeds in a memory of some size, and cell `k` is one that it writes. -/
def Store.Covers (size : Nat) (s : Store) (k : Nat) : Prop :=
  s.Fits size ∧ s.value? k ≠ none

theorem Memory.cell_stored {m : Memory} {s : Store} {k : Nat} (h : ¬ s.Covers m.size k) :
    (m.stored s).cell k = m.cell k := by
  rw [stored_eq]
  by_cases hs : s.Fits m.size
  · have hnone : s.value? k = none := not_not.1 fun hne => h ⟨hs, hne⟩
    rw [if_pos hs, cell_placed hs, hnone]
    rfl
  · rw [if_neg hs]

namespace Machine

variable {m n : Machine} {i : Instr} {k : Nat}

/-- Instruction `i` writes cell `k`, if memory has it. -/
def Reaches (m : Machine) (i : Instr) (k : Nat) : Prop :=
  m.registers.i.toNat ≤ k ∧ k < m.registers.i.toNat + i.written

/-- The commands write the cell when they succeed; what runs a program, when it gets there. -/
def Writes (m : Machine) (k : Nat) : Command → Prop
  | .poke a v => (Store.write a v).Covers m.memory.size k
  | .load image base? =>
    (Store.load image (base?.getD m.config.programStart)).Covers m.memory.size k
  | .boot => (Store.load Font.bytes m.config.fontStart).Covers m.memory.size k
  | .reset => (Store.load Font.bytes m.config.fontStart).Covers m.memory.size k
  | .execute (.instr i) => m.Reaches i k
  | d => ∃ s ∈ m.visited d, ∃ i, s.fetched = .ok i ∧ s.Reaches i k

/-- Some command of the session writes cell `k`. -/
def WritesAlong (k : Nat) : Machine → List Command → Prop
  | _, [] => False
  | m, d :: cs => m.Writes k d ∨ (after (perform d) m).WritesAlong k cs

/-! ## One instruction -/

/-- The cell holds the same byte in both machines. -/
def SameCell (k : Nat) (m n : Machine) : Prop :=
  n.memory.cell k = m.memory.cell k

theorem isPreorder_sameCell (k : Nat) : IsPreorder (SameCell k) where
  refl _ := rfl
  trans h₁ h₂ := Eq.trans h₂ h₁

theorem sameCell_writeCell {a : Nat} (h : a ≠ k) (v : Int) :
    Carries (SameCell k) (writeCell a v) := by
  intro m
  unfold after
  rw [writeCell_natCast]
  by_cases ha : a < m.memory.size
  · rw [if_pos ha]
    exact (Memory.cell_set _ _ _ _).trans (if_neg fun hk => h hk.1.symm)
  · rw [if_neg ha]
    rfl

theorem sameCell_writeCells {base : Nat} {bs : List Int}
    (h : ¬ (base ≤ k ∧ k < base + bs.length)) : Carries (SameCell k) (writeCells base bs) := by
  induction bs generalizing base with
  | nil => exact (isPreorder_sameCell k).refl
  | cons b bs ih =>
    rw [List.length_cons] at h
    have hnext : (base : Int) + 1 = ((base + 1 : Nat) : Int) := rfl
    unfold writeCells
    rw [hnext]
    exact Carries.bind (isPreorder_sameCell k) (sameCell_writeCell (by omega) b) fun _ =>
      ih (by omega)

theorem sameCell_register (x : Int) : Carries (SameCell k) (register x) := by
  refine Carries.of_after_eq (isPreorder_sameCell k) fun m => ?_
  unfold after register
  cases m.registers.read x <;> rfl

/-- A register that does not exist ends the transfer before its cell is written. -/
theorem sameCell_dumpRegisters {base count j : Nat}
    (h : ¬ (base + j ≤ k ∧ k < base + min (j + count) 16)) :
    Carries (SameCell k) (dumpRegisters base count j) := by
  induction count generalizing j with
  | zero => exact (isPreorder_sameCell k).refl
  | succ count ih =>
    have hcell : (base : Int) + (j : Int) = ((base + j : Nat) : Int) := rfl
    unfold dumpRegisters
    rw [hcell]
    by_cases hj : j < 16
    · exact Carries.bind (isPreorder_sameCell k) (sameCell_register j) fun b =>
        Carries.bind (isPreorder_sameCell k) (sameCell_writeCell (by omega) b.toNat) fun _ =>
          ih (by omega)
    · intro m
      have hslot : Registers.slot? j = none := Registers.slot?_eq_none_iff.2 (.inr (by omega))
      unfold after
      rw [bind_apply, register, Registers.read, hslot]
      rfl

theorem sameCell_storeDecimal {x : Int} (h : ¬ m.Reaches (.reg .storeDecimal x) k) :
    SameCell k m (after (execute (.reg .storeDecimal x)) m) := by
  cases hslot : Registers.slot? x with
  | none =>
    unfold after
    rw [execute, executeReg, bind_apply, register, Registers.read, hslot]
    rfl
  | some s =>
    have hread : register x m = .ok m.registers.v[s] m := by
      rw [register, Registers.read, hslot]
    have hout : ¬ (m.registers.i.toNat ≤ k ∧
        k < m.registers.i.toNat + (Arith.decimalDigits (m.registers.v[s]).toNat).length) := by
      have hthree : (Instr.reg .storeDecimal x).written = 3 := by
        show (if (Registers.slot? x).isSome then 3 else 0) = 3
        rw [hslot]
        rfl
      unfold Reaches at h
      rwa [hthree] at h
    have hcells := sameCell_writeCells hout m
    unfold after at hcells ⊢
    rw [execute, executeReg, bind_apply, hread]
    exact hcells

theorem sameCell_execute (h : ¬ m.Reaches i k) : SameCell k m (after (execute i) m) := by
  by_cases hwriter : i.opcode ∈ Part.memory.writers
  · cases i with
    | reg op x =>
      rcases List.mem_cons.1 hwriter with hop | hop
      · cases hop
        exact sameCell_storeDecimal h
      · cases List.mem_singleton.1 hop
        have hout : ¬ (m.registers.i.toNat + 0 ≤ k ∧
            k < m.registers.i.toNat + min (0 + (x + 1).toNat) 16) := by
          unfold Reaches Instr.written at h
          rwa [Nat.add_zero, Nat.zero_add]
        exact sameCell_dumpRegisters hout m
    | _ => simp [Part.writers, Instr.opcode] at hwriter
  · have hkept : (after (execute i) m).memory = m.memory :=
      kept_after_execute (q := .memory) hwriter m
    unfold SameCell
    rw [hkept]

/-- A step writes the cells that its instruction reaches, also when it fails. -/
theorem sameCell_step (h : ∀ i, m.fetched = .ok i → ¬ m.Reaches i k) :
    SameCell k m (after step m) := by
  cases hf : m.fetched with
  | error e =>
    rw [after_step_of_error hf]
    rfl
  | ok i =>
    -- The counter has moved on, but the instruction reaches the same cells.
    have hlaunched : ¬ (m.launched i).Reaches i k := h i hf
    have hexecute := sameCell_execute hlaunched
    rcases after_step_of_fetched hf with heq | heq
    · rw [heq]
      exact hexecute
    · rw [heq]
      exact hexecute

/-! ## Commands and sessions -/

theorem memory_load (image : List UInt8) (base? : Option Int) (m : Machine) :
    (after (load image base?) m).memory =
      m.memory.stored (.load image (base?.getD m.config.programStart)) := by
  have hstore : m.memory.store (.load image (base?.getD m.config.programStart)) =
      m.memory.load image (base?.getD m.config.programStart) := rfl
  unfold after load Memory.stored
  rw [hstore]
  cases m.memory.load image (base?.getD m.config.programStart) <;> rfl

theorem memory_boot (m : Machine) :
    (after boot m).memory = m.memory.stored (.load Font.bytes m.config.fontStart) := by
  have hload := memory_load Font.bytes (some m.config.fontStart) m
  rw [Option.getD_some] at hload
  rw [← hload]
  unfold after boot
  simp only [bind_apply, get_apply]
  cases load Font.bytes (some m.config.fontStart) m <;> rfl

theorem memory_reset (m : Machine) :
    (after reset m).memory = m.memory.stored (.load Font.bytes m.config.fontStart) := by
  rw [← memory_boot]
  unfold after reset
  rw [bind_apply]
  cases boot m with
  | ok _ n => simp only [modify_apply]
  | error e n => rfl

theorem memory_writeCell (a v : Int) (m : Machine) :
    (after (writeCell a v) m).memory = m.memory.stored (.write a v) := by
  have hstore : m.memory.store (.write a v) = m.memory.write8 a v := rfl
  unfold after writeCell Memory.stored
  rw [hstore]
  cases m.memory.write8 a v <;> rfl

theorem writes_of_takesSteps {d : Command} (hd : d.TakesSteps) :
    m.Writes k d ↔ ∃ s ∈ m.visited d, ∃ i, s.fetched = .ok i ∧ s.Reaches i k := by
  cases d with
  | step => exact Iff.rfl
  | run budget cadence? => exact Iff.rfl
  | _ => exact hd.elim

theorem sameCell_steps {d : Command} (hd : d.TakesSteps) (h : ¬ m.Writes k d) :
    SameCell k m (after (perform d) m) := by
  rw [writes_of_takesSteps hd] at h
  have hstep : ∀ s ∈ m.visited d, SameCell k m s → SameCell k m (after step s) := by
    intro s hs hm
    have hout : ∀ i, s.fetched = .ok i → ¬ s.Reaches i k := fun i hf hr => h ⟨s, hs, i, hf, hr⟩
    exact (isPreorder_sameCell k).trans hm (sameCell_step hout)
  have hleads : Leads (fun _ => False) m (m.visited d) (after (perform d) m) :=
    leads_perform (fun hn => hn hd) m
  apply hleads.kept (fun _ hm => hm) (fun _ _ hm => hm) (fun _ _ hc => hc.elim) hstep
  rfl

theorem sameCell_perform {d : Command} (h : ¬ m.Writes k d) :
    SameCell k m (after (perform d) m) := by
  by_cases hsteps : d.TakesSteps
  · exact sameCell_steps hsteps h
  · unfold SameCell
    cases d with
    | poke a v =>
      have hafter : after (perform (.poke a v)) m = after (writeCell a v) m :=
        after_bind_pure _ _ m
      rw [hafter, memory_writeCell]
      exact Memory.cell_stored h
    | load image base? =>
      have hafter : after (perform (.load image base?)) m = after (load image base?) m :=
        after_bind_pure _ _ m
      rw [hafter, memory_load]
      exact Memory.cell_stored h
    | boot =>
      have hafter : after (perform .boot) m = after boot m := after_bind_pure _ _ m
      rw [hafter, memory_boot]
      exact Memory.cell_stored h
    | reset =>
      have hafter : after (perform .reset) m = after reset m := after_bind_pure _ _ m
      rw [hafter, memory_reset]
      exact Memory.cell_stored h
    | execute entry =>
      have hafter : after (perform (.execute entry)) m = after (executeEntry entry) m :=
        after_bind_pure _ _ m
      rw [hafter]
      cases entry with
      | blank => rfl
      | instr i => exact sameCell_execute h
    | _ =>
      have hspared := spared_perform hsteps (fun _ h => by cases h) (fun h => by cases h) m
      rw [hspared.memory fun hs => hs]

theorem cell_session {cs : List Command} (h : ¬ m.WritesAlong k cs) :
    (m.session cs).memory.cell k = m.memory.cell k := by
  induction cs generalizing m with
  | nil => rfl
  | cons d cs ih =>
    obtain ⟨hfirst, hrest⟩ := not_or.1 h
    exact (ih hrest).trans (sameCell_perform hfirst)

end Machine

end Chip8
