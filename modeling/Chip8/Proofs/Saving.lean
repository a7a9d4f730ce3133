import Chip8.Proofs.Session

/-!
# Saving and restoring registers

A dump that ends inside memory copies the first registers to the cells from the index register on,
and a load copies them back, in the same order (`execute_dump`, `execute_load`). So a load restores
what a dump has saved, as long as these cells are left alone, and a dump of what was just loaded
changes nothing. A decimal store goes to three such cells.
-/

namespace Chip8

namespace Memory

variable {mem : Memory} {v : Vector UInt8 16} {i k : Nat} {x s : Fin 16}

/-- What is in memory already may be placed there. -/
theorem place_eq_self {bs : List UInt8} (h : i + bs.length ≤ mem.size)
    (hsame : ∀ j < bs.length, mem.cell (i + j) = bs.getD j 0) : mem.place i bs = mem := by
  refine ext_cell (size_place mem i bs) fun k _ => ?_
  rw [cell_place mem i k bs h]
  by_cases hk : i ≤ k ∧ k < i + bs.length
  · have hcell := hsame (k - i) (by omega)
    rw [Nat.add_sub_of_le hk.1] at hcell
    rw [if_pos hk, hcell]
  · rw [if_neg hk]

/-- The first registers, from cell `i` on. -/
def withRegisters (mem : Memory) (i : Nat) (v : Vector UInt8 16) (x : Fin 16) : Memory :=
  mem.place i (v.toList.take (x.val + 1))

theorem getD_take_registers (hs : s ≤ x) :
    (v.toList.take (x.val + 1)).getD s.val 0 = v.get s := by
  have hlt : s.val < x.val + 1 := Nat.lt_succ_of_le hs
  rw [List.getD_eq_getElem?_getD, List.getElem?_take_of_lt hlt]
  simp [Vector.get]

theorem size_withRegisters : (mem.withRegisters i v x).size = mem.size :=
  size_place _ _ _

theorem cell_withRegisters (h : i + x.val < mem.size) (hs : s ≤ x) :
    (mem.withRegisters i v x).cell (i + s.val) = v.get s := by
  have hlt : s.val < x.val + 1 := Nat.lt_succ_of_le hs
  have hlen := Registers.length_take v x
  unfold withRegisters
  rw [cell_place mem i (i + s.val) _ (by omega), hlen, if_pos (by omega), Nat.add_sub_cancel_left,
    getD_take_registers hs]

theorem cell_withRegisters_of_outside (h : i + x.val < mem.size) (hk : ¬ (i ≤ k ∧ k ≤ i + x.val)) :
    (mem.withRegisters i v x).cell k = mem.cell k := by
  have hlen := Registers.length_take v x
  unfold withRegisters
  rw [cell_place mem i k _ (by omega), hlen, if_neg (by omega)]

end Memory

namespace Machine

variable {m n : Machine} {x : Fin 16}

/-! ## Transfers that end inside memory -/

theorem execute_dump (h : m.registers.i.toNat + x.val < m.memory.size) :
    execute (.reg .dump x.val) m = .ok () { m with
      memory := m.memory.withRegisters m.registers.i.toNat m.registers.v x } := by
  rw [execute, executeReg_dump, if_pos h]
  rfl

theorem execute_load (h : m.registers.i.toNat + x.val < m.memory.size) :
    execute (.reg .load x.val) m = .ok () { m with
      registers := m.registers.fill (fun j => m.memory.cell (m.registers.i.toNat + j)) 0
        (x.val + 1) } := by
  rw [execute, executeReg_load, if_pos h]

theorem execute_storeDecimal (h : m.registers.i.toNat + 2 < m.memory.size) :
    execute (.reg .storeDecimal x.val) m = .ok () { m with
      memory := m.memory.place m.registers.i.toNat
        ((Arith.decimalDigits (m.registers.v.get x).toNat).map UInt8.ofInt) } := by
  rw [execute, executeReg_storeDecimal, if_pos h]

/-! ## There and back -/

/-- A load takes back what a dump has stored, if nobody has written there since. -/
theorem get_load_of_dump {mem : Memory} (h : m.registers.i.toNat + x.val < mem.size)
    (hindex : n.registers.i = m.registers.i)
    (hkept : ∀ k, m.registers.i.toNat ≤ k → k ≤ m.registers.i.toNat + x.val →
      n.memory.cell k = (mem.withRegisters m.registers.i.toNat m.registers.v x).cell k)
    (s : Fin 16) :
    (n.registers.fill (fun j => n.memory.cell (n.registers.i.toNat + j)) 0 (x.val + 1)).v.get s =
      if s ≤ x then m.registers.v.get s else n.registers.v.get s := by
  rw [Registers.get_fill]
  by_cases hs : s ≤ x
  · have hle : s.val ≤ x.val := hs
    rw [if_pos hs, if_pos ⟨Nat.zero_le _, Nat.lt_succ_of_le hle⟩, hindex,
      hkept _ (by omega) (by omega), Memory.cell_withRegisters h hs]
  · have hlt : ¬ s.val < x.val + 1 := fun hlt => hs (Nat.le_of_lt_succ hlt)
    rw [if_neg hs, if_neg fun hin => hlt hin.2]

theorem withRegisters_of_load (h : m.registers.i.toNat + x.val < m.memory.size) :
    m.memory.withRegisters m.registers.i.toNat
      (m.registers.fill (fun j => m.memory.cell (m.registers.i.toNat + j)) 0 (x.val + 1)).v x =
      m.memory := by
  have hlen (v : Vector UInt8 16) := Registers.length_take v x
  refine Memory.place_eq_self (by rw [hlen]; omega) fun j hj => ?_
  rw [hlen] at hj
  have hs : (⟨j, by omega⟩ : Fin 16) ≤ x := Nat.le_of_lt_succ hj
  have hget := Memory.getD_take_registers (s := ⟨j, by omega⟩)
    (v := (m.registers.fill (fun j => m.memory.cell (m.registers.i.toNat + j)) 0 (x.val + 1)).v) hs
  rw [hget, Registers.get_fill, if_pos ⟨Nat.zero_le _, hj⟩]

/-- What was loaded is in memory already. -/
theorem execute_dump_of_load {rs : Registers} (h : m.registers.i.toNat + x.val < m.memory.size)
    (hrs : rs = m.registers.fill (fun j => m.memory.cell (m.registers.i.toNat + j)) 0
      (x.val + 1)) :
    execute (.reg .dump x.val) { m with registers := rs } = .ok () { m with registers := rs } := by
  have hindex : rs.i = m.registers.i := by rw [hrs, Registers.i_fill]
  have hsaved : m.memory.withRegisters rs.i.toNat rs.v x = m.memory := by
    rw [hindex, hrs]
    exact withRegisters_of_load h
  have hroom : rs.i.toNat + x.val < m.memory.size := by
    rw [hindex]
    exact h
  rw [execute_dump (m := { m with registers := rs }) hroom, hsaved]

/-- The three cells that a byte's decimal digits are stored in. -/
structure HoldsDecimal (mem : Memory) (a : Nat) (b : UInt8) : Prop where
  hundreds : (mem.cell a).toNat ≤ 9
  tens : (mem.cell (a + 1)).toNat ≤ 9
  ones : (mem.cell (a + 2)).toNat ≤ 9
  sum : 100 * (mem.cell a).toNat + 10 * (mem.cell (a + 1)).toNat + (mem.cell (a + 2)).toNat =
    b.toNat

theorem holdsDecimal_place {mem : Memory} {a u t o : Nat} {b : UInt8} (h : a + 2 < mem.size)
    (hu : u ≤ 9) (ht : t ≤ 9) (ho : o ≤ 9) (hsum : 100 * u + 10 * t + o = b.toNat) :
    HoldsDecimal (mem.place a ([(u : Int), (t : Int), (o : Int)].map UInt8.ofInt)) a b := by
  have hcell (j : Nat) (hj : j < 3) :
      ((mem.place a ([(u : Int), (t : Int), (o : Int)].map UInt8.ofInt)).cell (a + j)).toNat =
        ([(u : Int), (t : Int), (o : Int)].getD j 0 % 256).toNat := by
    have hlen : ([(u : Int), (t : Int), (o : Int)].map UInt8.ofInt).length = 3 := rfl
    rw [Memory.cell_place _ _ _ _ (by omega), hlen, if_pos (by omega), Nat.add_sub_cancel_left,
      Byte.getD_map_ofInt, Byte.toNat_ofInt]
  have hhundreds := hcell 0 (by omega)
  have htens := hcell 1 (by omega)
  have hones := hcell 2 (by omega)
  simp only [List.getD_cons_zero, List.getD_cons_succ, Nat.add_zero] at hhundreds htens hones
  constructor <;> omega

theorem decimalDigits_toNat (b : UInt8) :
    Arith.decimalDigits b.toNat =
      [((b.toNat / 100 : Nat) : Int), ((b.toNat / 10 % 10 : Nat) : Int),
        ((b.toNat % 10 : Nat) : Int)] := by
  have hb := b.toNat_lt
  have hbyte : (b.toNat : Int) % 256 = b.toNat := by omega
  unfold Arith.decimalDigits
  rw [hbyte]
  rfl

/-- What a dump saves, a load restores, whatever has become of the other registers and of the
other cells. A dump of what was just loaded changes nothing, and a decimal store puts three digits
of its register into three cells. -/
theorem registers_restored (m : Machine) (x : Fin 16) :
    (m.registers.i.toNat + x.val < m.memory.size →
      (∃ mem, execute (.reg .dump x.val) m = .ok () { m with memory := mem } ∧
        mem.size = m.memory.size ∧
        (∀ k, mem.cell k ≠ m.memory.cell k →
          m.registers.i.toNat ≤ k ∧ k ≤ m.registers.i.toNat + x.val) ∧
        ∀ n : Machine, n.registers.i = m.registers.i → n.memory.size = m.memory.size →
          (∀ k, m.registers.i.toNat ≤ k → k ≤ m.registers.i.toNat + x.val →
            n.memory.cell k = mem.cell k) →
          ∃ rs : Registers, execute (.reg .load x.val) n = .ok () { n with registers := rs } ∧
            (∀ s, rs.v.get s = if s ≤ x then m.registers.v.get s else n.registers.v.get s) ∧
            rs.i = n.registers.i ∧ rs.pc = n.registers.pc) ∧
      ∃ rs : Registers, execute (.reg .load x.val) m = .ok () { m with registers := rs } ∧
        rs.i = m.registers.i ∧
        execute (.reg .dump x.val) { m with registers := rs } =
          .ok () { m with registers := rs }) ∧
    (m.registers.i.toNat + 2 < m.memory.size →
      ∃ mem, execute (.reg .storeDecimal x.val) m = .ok () { m with memory := mem } ∧
        mem.size = m.memory.size ∧
        HoldsDecimal mem m.registers.i.toNat (m.registers.v.get x) ∧
        ∀ k, mem.cell k ≠ m.memory.cell k →
          m.registers.i.toNat ≤ k ∧ k ≤ m.registers.i.toNat + 2) := by
  refine ⟨fun h => ⟨⟨_, execute_dump h, Memory.size_withRegisters, fun k hk => ?_,
    fun n hindex hsize hkept => ?_⟩, _, execute_load h, Registers.i_fill ..,
    execute_dump_of_load h rfl⟩, fun h => ?_⟩
  · by_contra hout
    exact hk (Memory.cell_withRegisters_of_outside h hout)
  · have hroom : n.registers.i.toNat + x.val < n.memory.size := by
      rw [hindex, hsize]
      exact h
    exact ⟨_, execute_load hroom, get_load_of_dump h hindex hkept,
      Registers.i_fill .., Registers.pc_fill ..⟩
  · refine ⟨_, execute_storeDecimal h, Memory.size_place _ _ _, ?_, fun k hk => ?_⟩
    · have hb := (m.registers.v.get x).toNat_lt
      rw [decimalDigits_toNat]
      exact holdsDecimal_place h (by omega) (by omega) (by omega) (by omega)
    · by_contra hout
      refine hk ?_
      rw [Memory.cell_place _ _ _ _ (show _ + 3 ≤ _ by omega)]
      exact if_neg fun hin => hout ⟨hin.1, Nat.le_of_lt_succ hin.2⟩

/-- Three registers to be saved fill memory up to its last cell. -/
def brimful : Machine :=
  { usual with
    registers := ⟨#v[0xA1, 0xA2, 0xF3, 4, 0, 0, 0, 0, 0, 0, 0, 0, 0, 0, 0, 0], 1, 0⟩
    memory := ⟨#[0xF2, 0x55, 0, 0]⟩ }

/-- All registers and the cell below the saved ones change before the load. -/
theorem registers_restored_brimful :
    execute (.reg .dump 2) brimful =
        .ok () { brimful with memory := ⟨#[0xF2, 0xA1, 0xA2, 0xF3]⟩ } ∧
      (∃ rs : Registers,
        execute (.reg .load 2) { brimful with
          registers := ⟨.replicate 16 7, 1, 9⟩
          memory := ⟨#[0, 0xA1, 0xA2, 0xF3]⟩ } = .ok () { brimful with
            registers := rs
            memory := ⟨#[0, 0xA1, 0xA2, 0xF3]⟩ } ∧
        rs.v.get 0 = 0xA1 ∧ rs.v.get 2 = 0xF3 ∧ rs.v.get 3 = 7 ∧ rs.i = 1 ∧ rs.pc = 9) ∧
      (∃ rs : Registers,
        execute (.reg .dump 2) { brimful with registers := rs } =
          .ok () { brimful with registers := rs }) ∧
      ∃ mem, execute (.reg .storeDecimal 2) brimful = .ok () { brimful with memory := mem } ∧
        HoldsDecimal mem 1 0xF3 := by
  obtain ⟨hsave, hdecimal⟩ := registers_restored brimful 2
  obtain ⟨⟨mem, hdump, -, -, hback⟩, rs, -, -, hagain⟩ := hsave (by decide)
  obtain ⟨mem', hstore, -, hdigits, -⟩ := hdecimal (by decide)
  have hmem : mem = ⟨#[0xF2, 0xA1, 0xA2, 0xF3]⟩ :=
    congrArg Machine.memory (EStateM.Result.ok.inj (hdump.symm.trans rfl)).2
  subst hmem
  have hkept : ∀ k ≤ 3, 1 ≤ k → (⟨#[0, 0xA1, 0xA2, 0xF3]⟩ : Memory).cell k =
      (⟨#[0xF2, 0xA1, 0xA2, 0xF3]⟩ : Memory).cell k := by decide
  obtain ⟨rs', hload, hget, hi, hpc⟩ := hback
    { brimful with
      registers := ⟨.replicate 16 7, 1, 9⟩
      memory := ⟨#[0, 0xA1, 0xA2, 0xF3]⟩ } rfl rfl fun k hlow hhigh => hkept k hhigh hlow
  exact ⟨hdump, ⟨rs', hload, hget 0, hget 2, hget 3, hi, hpc⟩, ⟨rs, hagain⟩, mem', hstore, hdigits⟩

end Machine

end Chip8
