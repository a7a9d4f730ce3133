import Chip8.Proofs.Action
import Chip8.Proofs.Bytes
import Chip8.Proofs.Cells

/-!
# Transfers between registers and memory

A transfer goes cell by cell upwards from its base. It succeeds if it ends inside memory. If not,
it fails at the base or the end of memory, whichever is higher, and has moved just the part that
lies inside. Each of `readCells`, `writeCells`, `dumpRegisters` and `loadRegisters` is given here
as one equation that says so.
-/

namespace Chip8

/-- The bytes of `n` cells from `a` on. -/
def Memory.run (m : Memory) (a n : Nat) : List UInt8 :=
  (List.range' a n).map m.cell

/-- Registers from `k` up to before `stop` with the bytes of `f`. -/
def Registers.fill (r : Registers) (f : Nat → UInt8) (k stop : Nat) : Registers :=
  { r with v := Vector.ofFn fun s => if k ≤ s.val ∧ s.val < stop then f s.val else r.v.get s }

namespace Registers

theorem get_mk (v : Vector UInt8 16) {j : Nat} (hj : j < 16) : v.get ⟨j, hj⟩ = v[j] := rfl

theorem get_fill (r : Registers) (f : Nat → UInt8) (k stop : Nat) (s : Fin 16) :
    (r.fill f k stop).v.get s = if k ≤ s.val ∧ s.val < stop then f s.val else r.v.get s := by
  unfold fill
  rw [get_mk, Vector.getElem_ofFn]

/-- The first registers, up to some register. -/
theorem length_take (v : Vector UInt8 16) (x : Fin 16) :
    (v.toList.take (x.val + 1)).length = x.val + 1 := by
  rw [List.length_take, Vector.length_toList]
  omega

@[simp] theorem i_fill (r : Registers) (f : Nat → UInt8) (k stop : Nat) :
    (r.fill f k stop).i = r.i := by
  unfold fill
  rfl

@[simp] theorem pc_fill (r : Registers) (f : Nat → UInt8) (k stop : Nat) :
    (r.fill f k stop).pc = r.pc := by
  unfold fill
  rfl

theorem fill_of_le {r : Registers} {f : Nat → UInt8} {k stop : Nat} (h : stop ≤ k) :
    r.fill f k stop = r := by
  have hv : (r.fill f k stop).v = r.v := by
    refine Vector.ext fun j hj => ?_
    have hout : ¬ (k ≤ j ∧ j < stop) := by omega
    rw [← get_mk, ← get_mk, get_fill, if_neg hout]
  have hr : r.fill f k stop = { r with v := (r.fill f k stop).v } := by
    unfold fill
    rfl
  rw [hr, hv]

/-- The lowest register of a filled range may be written first. -/
theorem fill_set {r : Registers} {f : Nat → UInt8} {k stop : Nat} (hk : k < 16) (h : k < stop) :
    (r.set ⟨k, hk⟩ (f k)).fill f (k + 1) stop = r.fill f k stop := by
  simp only [fill, set, mk.injEq, and_true]
  refine Vector.ext fun j hj => ?_
  simp only [Vector.getElem_ofFn, get_mk, Vector.getElem_set]
  by_cases hjk : k = j
  · subst hjk
    rw [if_neg (by omega), if_pos rfl, if_pos ⟨Nat.le_refl k, h⟩]
  · rw [if_neg hjk]
    by_cases hin : k + 1 ≤ j ∧ j < stop
    · rw [if_pos hin, if_pos ⟨by omega, hin.2⟩]
    · rw [if_neg hin, if_neg (by omega)]

end Registers

namespace Machine

theorem readCell_natCast (a : Nat) (m : Machine) :
    readCell a m = if a < m.memory.size then .ok (m.memory.cell a) m
      else .error (.fault (m.memory.outside a)) m := by
  simp only [readCell, Memory.read8_natCast]
  by_cases h : a < m.memory.size
  · rw [if_pos h, if_pos h]
  · rw [if_neg h, if_neg h]

theorem writeCell_natCast (a : Nat) (v : Int) (m : Machine) :
    writeCell a v m =
      if a < m.memory.size then .ok () { m with memory := m.memory.set a (UInt8.ofInt v) }
      else .error (.fault (m.memory.outside a)) m := by
  simp only [writeCell, Memory.write8_natCast]
  by_cases h : a < m.memory.size
  · rw [if_pos h, if_pos h]
  · rw [if_neg h, if_neg h]

/-- The fault of a transfer from `a` on that leaves a memory of some size. -/
def transferFault (size a : Nat) : Failure :=
  .fault (.addressOutOfBounds (max a size : Nat) size)

theorem transferFault_of_lt {size a : Nat} (h : a < size) :
    transferFault size (a + 1) = transferFault size a := by
  unfold transferFault
  rw [Nat.max_eq_right h, Nat.max_eq_right (Nat.le_of_lt h)]

theorem transferFault_of_not_lt {m : Memory} {a : Nat} (h : ¬ a < m.size) :
    transferFault m.size a = .fault (m.outside a) := by
  unfold transferFault
  rw [Nat.max_eq_left (Nat.not_lt.1 h)]
  rfl

theorem readCells_eq (base n k : Nat) (m : Machine) :
    readCells base n k m =
      if n = 0 ∨ base + k + n ≤ m.memory.size then .ok (m.memory.run (base + k) n) m
      else .error (transferFault m.memory.size (base + k)) m := by
  induction n generalizing k with
  | zero => simp [readCells, Memory.run]
  | succ n ih =>
    have hbase : (base : Int) + (k : Int) = ((base + k : Nat) : Int) := rfl
    rw [readCells, bind_apply, hbase, readCell_natCast]
    by_cases h : base + k < m.memory.size
    · simp only [if_pos h, bind_apply, ih (k + 1)]
      by_cases hn : n = 0 ∨ base + (k + 1) + n ≤ m.memory.size
      · rw [if_pos hn, if_pos (by omega)]
        rfl
      · rw [if_neg hn, if_neg (by omega)]
        exact congrArg (EStateM.Result.error · m) (transferFault_of_lt h)
    · rw [if_neg h, if_neg (by omega), transferFault_of_not_lt h]

theorem writeCells_eq (base : Nat) (bs : List Int) (m : Machine) :
    writeCells base bs m =
      if bs = [] ∨ base + bs.length ≤ m.memory.size then
        .ok () { m with memory := m.memory.place base (bs.map UInt8.ofInt) }
      else .error (transferFault m.memory.size base)
        { m with memory :=
            m.memory.place base ((bs.map UInt8.ofInt).take (m.memory.size - base)) } := by
  induction bs generalizing base m with
  | nil => simp [writeCells, Memory.place]
  | cons b bs ih =>
    have hbase : (base : Int) + 1 = ((base + 1 : Nat) : Int) := rfl
    rw [writeCells, bind_apply, writeCell_natCast]
    by_cases h : base < m.memory.size
    · simp only [if_pos h, hbase, ih (base + 1), Memory.size_set, List.length_cons,
        reduceCtorEq, false_or]
      by_cases hn : bs = [] ∨ base + 1 + bs.length ≤ m.memory.size
      · have hlen : base + (bs.length + 1) ≤ m.memory.size := by
          rcases hn with rfl | hn
          · simp only [List.length_nil]; omega
          · omega
        rw [if_pos hn, if_pos hlen]
        rfl
      · have hlen : ¬ base + (bs.length + 1) ≤ m.memory.size := fun hc => hn (.inr (by omega))
        have hroom : m.memory.size - base = (m.memory.size - (base + 1)) + 1 := by omega
        rw [if_neg hn, if_neg hlen, List.map_cons, hroom, List.take_succ_cons]
        exact congrArg (EStateM.Result.error · _) (transferFault_of_lt h)
    · have hlen : ¬ (b :: bs = [] ∨ base + (b :: bs).length ≤ m.memory.size) := by
        simp only [reduceCtorEq, List.length_cons, false_or]; omega
      rw [if_neg h, if_neg hlen, transferFault_of_not_lt h,
        show m.memory.size - base = 0 by omega, List.take_zero, Memory.place]

/-- A dump stores the bytes of its registers. -/
theorem dumpRegisters_eq (base n k : Nat) (m : Machine) (h : k + n ≤ 16) :
    dumpRegisters base n k m =
      writeCells (base + k : Nat)
        (((m.registers.v.toList.drop k).take n).map fun b => (b.toNat : Int)) m := by
  induction n generalizing k m with
  | zero => simp [dumpRegisters, writeCells]
  | succ n ih =>
    have hk : k < 16 := by omega
    have hreg := register_fin ⟨k, hk⟩ m
    have hdrop : m.registers.v.toList.drop k =
        m.registers.v[k] :: m.registers.v.toList.drop (k + 1) := by
      rw [List.drop_eq_getElem_cons (by simpa using hk)]
      simp
    have hbase : (base : Int) + (k : Int) = ((base + k : Nat) : Int) := rfl
    rw [dumpRegisters, bind_apply, hreg, hdrop, List.take_succ_cons, List.map_cons, writeCells]
    simp only [bind_apply, hbase, writeCell_natCast, Registers.get_mk]
    by_cases hlt : base + k < m.memory.size
    · simp only [if_pos hlt]
      rw [ih (k + 1) _ (by omega)]
      rfl
    · simp only [if_neg hlt]

theorem loadRegisters_eq (base n k : Nat) (m : Machine) (h : k + n ≤ 16) :
    loadRegisters base n k m =
      if n = 0 ∨ base + k + n ≤ m.memory.size then
        .ok () { m with
          registers := m.registers.fill (fun j => m.memory.cell (base + j)) k (k + n) }
      else .error (transferFault m.memory.size (base + k))
        { m with registers :=
            m.registers.fill (fun j => m.memory.cell (base + j)) k (m.memory.size - base) } := by
  induction n generalizing k m with
  | zero => simp [loadRegisters, Registers.fill_of_le]
  | succ n ih =>
    have hk : k < 16 := by omega
    have hbase : (base : Int) + (k : Int) = ((base + k : Nat) : Int) := rfl
    rw [loadRegisters, bind_apply, hbase, readCell_natCast]
    by_cases hlt : base + k < m.memory.size
    · have hset := setRegister_fin ⟨k, hk⟩ (m.memory.cell (base + k)).toNat m
      simp only [if_pos hlt, bind_apply, hset, Byte.ofInt_toNat]
      have hfill (stop : Nat) (hs : k < stop) :
          (m.registers.set ⟨k, hk⟩ (m.memory.cell (base + k))).fill
            (fun j => m.memory.cell (base + j)) (k + 1) stop =
          m.registers.fill (fun j => m.memory.cell (base + j)) k stop :=
        Registers.fill_set (f := fun j => m.memory.cell (base + j)) hk hs
      rw [ih (k + 1) _ (by omega)]
      dsimp only
      by_cases hn : n = 0 ∨ base + (k + 1) + n ≤ m.memory.size
      · rw [if_pos hn, if_pos (by omega), show k + 1 + n = k + (n + 1) by omega,
          hfill _ (by omega)]
      · rw [if_neg hn, if_neg (by omega), hfill _ (by omega)]
        exact congrArg (EStateM.Result.error · _) (transferFault_of_lt hlt)
    · rw [if_neg hlt, if_neg (by omega), transferFault_of_not_lt hlt,
        Registers.fill_of_le (by omega)]

end Machine

end Chip8
