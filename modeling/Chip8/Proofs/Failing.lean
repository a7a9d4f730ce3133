import Chip8.Proofs.InRange
import Chip8.Proofs.Operands
import Chip8.Proofs.Transfer

/-!
# How instructions fail

`Fails m i e m'` lists every way in which an instruction whose operands fit can fail: where it
fails, with what, and what it leaves behind. Only the three transfers that write as they go leave
anything behind. The list is complete (`fails_of_execute`), and nothing is in it that does not
happen (`execute_of_fails`).
-/

namespace Chip8.Machine

/-! ## Building blocks that never fail -/

@[simp] theorem setFlag_apply (v : Int) (m : Machine) :
    setFlag v m = .ok () { m with registers := m.registers.setFlag v } := rfl

@[simp] theorem setIndex_apply (v : Int) (m : Machine) :
    setIndex v m = .ok () { m with registers := m.registers.setIndex v } := rfl

@[simp] theorem setDelay_apply (v : Int) (m : Machine) :
    setDelay v m = .ok () { m with timers := m.timers.setDelay v } := rfl

@[simp] theorem setSound_apply (v : Int) (m : Machine) :
    setSound v m = .ok () { m with timers := m.timers.setSound v } := rfl

@[simp] theorem clearScreen_apply (m : Machine) :
    clearScreen m = .ok () { m with screen := m.screen.clear } := rfl

@[simp] theorem randomByte_apply (m : Machine) :
    randomByte m = .ok m.random.byte.1 { m with random := m.random.byte.2 } := rfl

theorem skipIf_apply (c : Bool) (m : Machine) :
    skipIf c m = .ok () { m with
      registers := if c then m.registers.setCounter (m.registers.pc.toNat + 2)
        else m.registers } := by
  cases c <;> rfl

@[simp] theorem setResult_fin (s : Fin 16) (r : Int × Int) (m : Machine) :
    setResult (s.val : Int) r m = .ok () { m with
      registers := (m.registers.set s (UInt8.ofInt r.1)).setFlag r.2 } := by
  simp [setResult, bind_apply]

theorem heldKey_apply (m : Machine) :
    heldKey m = match m.keypad.nibble with
      | .ok k => .ok k m
      | .error f => .error (.fault f) m := rfl

theorem exists_key_of_nibble_error {k : Keypad} {f : Fault} (h : k.nibble = .error f) :
    ∃ key, k.held = some key ∧ key.value? = none ∧ f = .invalidKey key := by
  unfold Keypad.nibble at h
  split at h
  · cases h
  · rename_i key hk
    split at h
    · cases h
    · rename_i hv
      cases h
      exact ⟨key, hk, hv, rfl⟩

/-- A sprite of an instruction is never too tall, and what is drawn is in range. -/
theorem draw_fin (row col : Int) {bs : List Int} (h : bs.length < 16) (m : Machine) :
    ∃ b s, draw row col bs m = .ok b { m with screen := s } := by
  unfold draw
  rw [m.screen.draw_eq row col (Nat.le_of_lt_succ h)]
  exact ⟨_, _, rfl⟩

/-- The rows that an instruction draws, from the index register on. -/
def rowsAtIndex (m : Machine) (n : Nat) : List Int :=
  (m.memory.run m.registers.i.toNat n).map fun b => (b.toNat : Int)

/-- What is drawn is read first, and the answer is written last. -/
theorem execute_draw_fin {m : Machine} {x y n : Fin 16}
    (hroom : n.val = 0 ∨ m.registers.i.toNat + n.val ≤ m.memory.size) {s : Screen} {erased : Bool}
    (hd : m.screen.draw (m.registers.v.get y).toNat (m.registers.v.get x).toNat
      (m.rowsAtIndex n.val) = .ok (s, erased)) :
    execute (.draw x.val y.val n.val) m = .ok () { m with
      screen := s
      registers := m.registers.setFlag (if erased then 1 else 0) } := by
  have hdraw : draw (m.registers.v.get y).toNat (m.registers.v.get x).toNat
      (m.rowsAtIndex n.val) m = .ok erased { m with screen := s } := by
    unfold draw
    rw [hd]
  unfold rowsAtIndex at hdraw
  simp only [execute, executeDraw, bind_apply, index_apply, Int.toNat_natCast, readCells_eq,
    Nat.add_zero, if_pos hroom, register_fin, hdraw, setFlag_apply]

/-! ## Transfers

Each of the three that write as they go either moves everything or, if it would leave memory, the
part that lies inside. -/

/-- As much of `bs` as memory has room for, stored from the index register on. -/
def storeClipped (m : Machine) (bs : List UInt8) : Machine :=
  { m with
    memory := m.memory.place m.registers.i.toNat
      (bs.take (m.memory.size - m.registers.i.toNat)) }

/-- As many registers as there are cells from the index register on, loaded from these. -/
def loadClipped (m : Machine) : Machine :=
  { m with
    registers := m.registers.fill (fun j => m.memory.cell (m.registers.i.toNat + j)) 0
      (m.memory.size - m.registers.i.toNat) }

theorem executeReg_storeDecimal (x : Fin 16) (m : Machine) :
    executeReg .storeDecimal x.val m =
      if m.registers.i.toNat + 2 < m.memory.size then .ok () { m with
        memory := m.memory.place m.registers.i.toNat
          ((Arith.decimalDigits (m.registers.v.get x).toNat).map UInt8.ofInt) }
      else .error (transferFault m.memory.size m.registers.i.toNat)
        (m.storeClipped ((Arith.decimalDigits (m.registers.v.get x).toNat).map UInt8.ofInt)) := by
  have hthree : (Arith.decimalDigits (m.registers.v.get x).toNat).length = 3 := rfl
  have hsome : Arith.decimalDigits (m.registers.v.get x).toNat ≠ [] := List.cons_ne_nil _ _
  simp only [executeReg, bind_apply, register_fin, index_apply]
  rw [writeCells_eq, hthree]
  by_cases h : m.registers.i.toNat + 2 < m.memory.size
  · rw [if_pos h, if_pos (.inr (by omega))]
  · rw [if_neg h, if_neg (not_or.2 ⟨hsome, by omega⟩)]
    rfl

theorem executeReg_dump (x : Fin 16) (m : Machine) :
    executeReg .dump x.val m =
      if m.registers.i.toNat + x.val < m.memory.size then .ok () { m with
        memory := m.memory.place m.registers.i.toNat (m.registers.v.toList.take (x.val + 1)) }
      else .error (transferFault m.memory.size m.registers.i.toNat)
        (m.storeClipped m.registers.v.toList) := by
  have hcount : ((x.val : Int) + 1).toNat = x.val + 1 := by omega
  have hlen := Registers.length_take m.registers.v x
  have hsome : ((m.registers.v.toList.take (x.val + 1)).map fun b => (b.toNat : Int)) ≠ [] := by
    rw [Ne, List.map_eq_nil_iff, ← List.length_eq_zero_iff, hlen]
    omega
  simp only [executeReg, bind_apply, index_apply, hcount]
  rw [dumpRegisters_eq _ _ _ _ (by omega), writeCells_eq, List.drop_zero, List.length_map, hlen,
    Byte.map_ofInt_toNat]
  by_cases h : m.registers.i.toNat + x.val < m.memory.size
  · rw [if_pos h, if_pos (.inr (by omega))]
    rfl
  · rw [if_neg h, if_neg (not_or.2 ⟨hsome, by omega⟩), List.take_take, Nat.min_eq_left (by omega)]
    rfl

theorem executeReg_load (x : Fin 16) (m : Machine) :
    executeReg .load x.val m =
      if m.registers.i.toNat + x.val < m.memory.size then .ok () { m with
        registers := m.registers.fill (fun j => m.memory.cell (m.registers.i.toNat + j)) 0
          (x.val + 1) }
      else .error (transferFault m.memory.size m.registers.i.toNat) m.loadClipped := by
  have hcount : ((x.val : Int) + 1).toNat = x.val + 1 := by omega
  simp only [executeReg, bind_apply, index_apply, hcount]
  rw [loadRegisters_eq _ _ _ _ (by omega), Nat.zero_add]
  by_cases h : m.registers.i.toNat + x.val < m.memory.size
  · rw [if_pos h, if_pos (.inr (by omega))]
  · rw [if_neg h, if_neg (not_or.2 ⟨Nat.succ_ne_zero _, by omega⟩)]
    rfl

/-! ## The ways to fail -/

/-- Instruction `i` fails on `m` with `e` and leaves `m'`. -/
inductive Fails (m : Machine) : Instr → Failure → Machine → Prop where
  | underflow (h : m.stack.frames = []) : Fails m (.plain .ret) (.fault .stackUnderflow) m
  | overflow (nnn : Int) (h : m.stack.capacity ≤ m.stack.depth) :
      Fails m (.addr .call nnn)
        (.fault (.stackOverflow m.registers.pc.toNat m.stack.capacity)) m
  | key (op : Op.Reg) (s : Fin 16) (k : Key) (hop : op ∈ [.skipKey, .skipNoKey, .waitKey])
      (hk : m.keypad.held = some k) (hv : k.value? = none) :
      Fails m (.reg op s.val) (.fault (.invalidKey k)) m
  | sprite (s : Fin 16) (h : 16 ≤ (m.registers.v.get s).toNat) :
      Fails m (.reg .glyph s.val) (.fault (.invalidSprite (m.registers.v.get s).toNat)) m
  | draw (s t n : Fin 16) (h : n.val ≠ 0 ∧ m.memory.size < m.registers.i.toNat + n.val) :
      Fails m (.draw s.val t.val n.val) (transferFault m.memory.size m.registers.i.toNat) m
  | decimal (s : Fin 16) (h : m.memory.size < m.registers.i.toNat + 3) :
      Fails m (.reg .storeDecimal s.val) (transferFault m.memory.size m.registers.i.toNat)
        (m.storeClipped ((Arith.decimalDigits (m.registers.v.get s).toNat).map UInt8.ofInt))
  | dump (s : Fin 16) (h : m.memory.size < m.registers.i.toNat + (s.val + 1)) :
      Fails m (.reg .dump s.val) (transferFault m.memory.size m.registers.i.toNat)
        (m.storeClipped m.registers.v.toList)
  | load (s : Fin 16) (h : m.memory.size < m.registers.i.toNat + (s.val + 1)) :
      Fails m (.reg .load s.val) (transferFault m.memory.size m.registers.i.toNat)
        m.loadClipped

section

variable {m m' : Machine} {e : Failure}

theorem fails_of_executePlain {op : Op.Plain} (h : executePlain op m = .error e m') :
    Fails m (.plain op) e m' := by
  cases op with
  | clear => cases h
  | ret =>
    rcases bind_eq_error_iff.1 h with h | ⟨a, n, _, h⟩
    · unfold pop CallStack.pop at h
      cases hf : m.stack.frames with
      | nil => rw [hf] at h; cases h; exact .underflow hf
      | cons a rest => rw [hf] at h; cases h
    · cases h

theorem fails_of_executeAddr {op : Op.Addr} {nnn : Int}
    (h : executeAddr op nnn m = .error e m') : Fails m (.addr op nnn) e m' := by
  cases op with
  | sys => cases h
  | jump => cases h
  | setIndex => cases h
  | jumpV0 =>
    have h0 := register_fin 0 m
    simp only [executeAddr, bind_apply] at h
    rw [show (0 : Int) = ((0 : Fin 16).val : Int) from rfl, h0] at h
    cases h
  | call =>
    simp only [executeAddr, bind_apply, counter_apply, push, CallStack.push] at h
    by_cases hc : m.stack.capacity ≤ m.stack.depth
    · rw [if_pos hc] at h; cases h; exact .overflow nnn hc
    · rw [if_neg hc] at h; cases h

theorem fails_of_executePair {op : Op.Pair} {s t : Fin 16}
    (h : executePair op s.val t.val m = .error e m') :
    Fails m (.pair op s.val t.val) e m' := by
  cases op <;> simp [executePair, bind_apply, skipIf_apply] at h

theorem fails_of_executeByte {op : Op.Byte} {s : Fin 16} {kk : Int}
    (h : executeByte op s.val kk m = .error e m') : Fails m (.byte op s.val kk) e m' := by
  cases op <;> simp [executeByte, bind_apply, skipIf_apply] at h

theorem fails_of_executeDraw {s t n : Fin 16}
    (h : executeDraw s.val t.val n.val m = .error e m') :
    Fails m (.draw s.val t.val n.val) e m' := by
  simp only [executeDraw, bind_apply, index_apply, Int.toNat_natCast, readCells_eq,
    Nat.add_zero] at h
  by_cases hn : n.val = 0 ∨ m.registers.i.toNat + n.val ≤ m.memory.size
  · have hlen : ((m.memory.run m.registers.i.toNat n.val).map fun b => (b.toNat : Int)).length
        < 16 := by simp [Memory.run]
    obtain ⟨b, scr, hd⟩ := draw_fin (m.registers.v.get t).toNat (m.registers.v.get s).toNat hlen m
    simp only [if_pos hn, register_fin, hd, setFlag_apply] at h
    cases h
  · simp only [if_neg hn] at h
    cases h
    exact .draw s t n ⟨fun h0 => hn (.inl h0), by omega⟩

theorem fails_of_heldKey {op : Op.Reg} {s : Fin 16} {α : Type} {k : Option UInt8 → Action α}
    (hop : op ∈ [.skipKey, .skipNoKey, .waitKey]) (hk : ∀ v n, ∃ x n', k v n = .ok x n')
    (h : (heldKey >>= k) m = .error e m') : Fails m (.reg op s.val) e m' := by
  rw [bind_apply, heldKey_apply] at h
  cases hn : m.keypad.nibble with
  | ok v =>
    simp only [hn] at h
    obtain ⟨x, n', hx⟩ := hk v m
    rw [hx] at h
    cases h
  | error f =>
    rw [hn] at h
    cases h
    obtain ⟨key, hheld, hval, rfl⟩ := exists_key_of_nibble_error hn
    exact .key op s key hop hheld hval

theorem fails_of_executeReg {op : Op.Reg} {s : Fin 16}
    (h : executeReg op s.val m = .error e m') : Fails m (.reg op s.val) e m' := by
  cases op with
  | shiftRight => simp [executeReg, bind_apply] at h
  | shiftLeft => simp [executeReg, bind_apply] at h
  | getDelay => simp [executeReg, bind_apply] at h
  | setDelay => simp [executeReg, bind_apply] at h
  | setSound => simp [executeReg, bind_apply] at h
  | addIndex => simp [executeReg, bind_apply] at h
  | skipKey =>
    refine fails_of_heldKey (by decide) (fun v n => ?_) h
    cases v <;> simp [bind_apply, skipIf_apply]
  | skipNoKey =>
    refine fails_of_heldKey (by decide) (fun v n => ?_) h
    cases v <;> simp [bind_apply, skipIf_apply]
  | waitKey =>
    refine fails_of_heldKey (by decide) (fun v n => ?_) h
    cases v <;> simp [bind_apply]
  | glyph =>
    simp only [executeReg, bind_apply, register_fin, get_apply, setGlyph, Font.address] at h
    by_cases hd : 0 ≤ ((m.registers.v.get s).toNat : Int) ∧ ((m.registers.v.get s).toNat : Int) < 16
    · rw [if_pos hd] at h; cases h
    · rw [if_neg hd] at h
      cases h
      exact .sprite s (by omega)
  | storeDecimal =>
    rw [executeReg_storeDecimal] at h
    split at h
    · cases h
    · rename_i hout
      cases h
      exact .decimal s (Nat.lt_succ_of_le (Nat.not_lt.1 hout))
  | dump =>
    rw [executeReg_dump] at h
    split at h
    · cases h
    · rename_i hout
      cases h
      exact .dump s (Nat.lt_succ_of_le (Nat.not_lt.1 hout))
  | load =>
    rw [executeReg_load] at h
    split at h
    · cases h
    · rename_i hout
      cases h
      exact .load s (Nat.lt_succ_of_le (Nat.not_lt.1 hout))

/-- An instruction whose operands fit fails in a listed way only. -/
theorem fails_of_execute {i : Instr} (hi : i.Fits) (h : execute i m = .error e m') :
    Fails m i e m' := by
  cases i with
  | plain op => exact fails_of_executePlain h
  | addr op nnn => exact fails_of_executeAddr h
  | reg op x =>
    obtain ⟨s, rfl⟩ := hi.reg
    exact fails_of_executeReg h
  | pair op x y =>
    obtain ⟨⟨s, rfl⟩, t, rfl⟩ := hi.pair
    exact fails_of_executePair h
  | byte op x kk =>
    obtain ⟨s, rfl⟩ := hi.byte
    exact fails_of_executeByte h
  | draw x y n =>
    obtain ⟨⟨s, rfl⟩, ⟨t, rfl⟩, r, rfl⟩ := hi.draw
    exact fails_of_executeDraw h

/-- An instruction does fail in each of these ways. -/
theorem execute_of_fails {i : Instr} (h : Fails m i e m') : execute i m = .error e m' := by
  cases h with
  | underflow h => simp only [execute, executePlain, bind_apply, pop, CallStack.pop, h]
  | overflow nnn h =>
    simp only [execute, executeAddr, bind_apply, counter_apply, push, CallStack.push, if_pos h]
  | key op s k hop hk hv =>
    have hheld : heldKey m = .error (.fault (.invalidKey k)) m := by
      simp only [heldKey_apply, Keypad.nibble, hk, hv]
    simp only [List.mem_cons, List.not_mem_nil, or_false] at hop
    rcases hop with rfl | rfl | rfl <;> simp only [execute, executeReg, bind_apply, hheld]
  | sprite s h =>
    have hout : ¬ (0 ≤ ((m.registers.v.get s).toNat : Int) ∧
        ((m.registers.v.get s).toNat : Int) < 16) := by omega
    simp only [execute, executeReg, bind_apply, register_fin, get_apply, setGlyph, Font.address,
      if_neg hout, fault_apply]
  | draw s t n h =>
    have hroom : ¬ (n.val = 0 ∨ m.registers.i.toNat + n.val ≤ m.memory.size) := by omega
    simp only [execute, executeDraw, bind_apply, index_apply, Int.toNat_natCast, readCells_eq,
      Nat.add_zero, if_neg hroom]
  | decimal s h =>
    rw [execute, executeReg_storeDecimal, if_neg (by omega)]
  | dump s h => rw [execute, executeReg_dump, if_neg (by omega)]
  | load s h => rw [execute, executeReg_load, if_neg (by omega)]

end

end Chip8.Machine
