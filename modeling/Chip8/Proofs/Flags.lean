import Chip8.Proofs.Failing

/-!
# Results and flags

An operation of the arithmetic unit leaves a result in its first register. Some also leave a flag,
which is a register like any other and is written last. `Balanced` ties result and flag to the
operands, so that nothing of the exact answer is lost. Both operands are read before anything is
written, whichever registers they are in (`flag_arithmetic_exact`).
-/

namespace Chip8

/-! ## Operations with a flag -/

/-- Operations that leave a result and a flag. -/
inductive FlagOp where
  | add
  | sub
  | subFrom
  | shiftRight
  | shiftLeft
  deriving DecidableEq, Repr

namespace FlagOp

/-- A shift has no use for its second register. -/
def instr (op : FlagOp) (x y : Fin 16) : Instr :=
  match op with
  | add => .pair .add x.val y.val
  | sub => .pair .sub x.val y.val
  | subFrom => .pair .subFrom x.val y.val
  | shiftRight => .reg .shiftRight x.val
  | shiftLeft => .reg .shiftLeft x.val

/-- Result `r` and flag `f` make up the exact answer for operands `a` and `b`. -/
def Balanced (op : FlagOp) (a b r f : Int) : Prop :=
  match op with
  | add => r + 256 * f = a + b ∧ r = (a + b) % 256
  | sub => r = a - b + 256 * (1 - f)
  | subFrom => r = b - a + 256 * (1 - f)
  | shiftRight => a = 2 * r + f
  | shiftLeft => 2 * a = r + 256 * f

/-- The result and the flag that are computed. -/
def outcome (op : FlagOp) (a b : Int) : Int × Int :=
  match op with
  | add => Arith.add a b
  | sub => Arith.sub a b
  | subFrom => Arith.sub b a
  | shiftRight => Arith.shiftRight a
  | shiftLeft => Arith.shiftLeft a

variable {a b : Int}

theorem balanced_outcome (op : FlagOp) (ha : 0 ≤ a ∧ a < 256) (hb : 0 ≤ b ∧ b < 256) :
    op.Balanced a b (op.outcome a b).1 (op.outcome a b).2 := by
  cases op with
  | add => exact ⟨Arith.add_carry ha hb, rfl⟩
  | sub => exact Arith.sub_borrow ha hb
  | subFrom => exact Arith.sub_borrow hb ha
  | shiftRight => exact Arith.shiftRight_out ha
  | shiftLeft => exact Arith.shiftLeft_out ha

theorem outcome_bounds (op : FlagOp) (a b : Int) :
    (0 ≤ (op.outcome a b).1 ∧ (op.outcome a b).1 ≤ 255) ∧
      ((op.outcome a b).2 = 0 ∨ (op.outcome a b).2 = 1) := by
  cases op with
  | add => simp only [outcome, Arith.add]; split <;> omega
  | sub => simp only [outcome, Arith.sub]; split <;> omega
  | subFrom => simp only [outcome, Arith.sub]; split <;> omega
  | shiftRight => simp only [outcome, Arith.shiftRight]; omega
  | shiftLeft => simp only [outcome, Arith.shiftLeft]; omega

/-- On bytes, result and flag are a byte and a bit. -/
theorem exists_bytes (op : FlagOp) (a b : UInt8) : ∃ r f : UInt8,
    op.outcome a.toNat b.toNat = (↑r.toNat, ↑f.toNat) ∧ (f = 0 ∨ f = 1) ∧
      op.Balanced a.toNat b.toNat r.toNat f.toNat := by
  have ha := a.toNat_lt
  have hb := b.toNat_lt
  have hbalance := op.balanced_outcome (a := a.toNat) (b := b.toNat)
    ⟨by omega, by omega⟩ ⟨by omega, by omega⟩
  obtain ⟨hresult, hbit⟩ := op.outcome_bounds a.toNat b.toNat
  generalize op.outcome a.toNat b.toNat = out at hbalance hresult hbit
  have hr : ((UInt8.ofInt out.1).toNat : Int) = out.1 := by
    rw [Byte.toNat_ofInt]
    omega
  have hf : ((UInt8.ofInt out.2).toNat : Int) = out.2 := by
    rw [Byte.toNat_ofInt]
    omega
  refine ⟨UInt8.ofInt out.1, UInt8.ofInt out.2, ?_, ?_, ?_⟩
  · rw [hr, hf]
  · exact hbit.imp (fun h => by rw [h]; rfl) fun h => by rw [h]; rfl
  · rw [hr, hf]
    exact hbalance

end FlagOp

/-! ## Operations without a flag -/

/-- Operations that leave a result only. -/
inductive PlainOp where
  | addByte (kk : Int)
  | copy
  | or
  | and
  | xor
  deriving DecidableEq, Repr

namespace PlainOp

def instr (op : PlainOp) (x y : Fin 16) : Instr :=
  match op with
  | addByte kk => .byte .add x.val kk
  | copy => .pair .copy x.val y.val
  | or => .pair .or x.val y.val
  | and => .pair .and x.val y.val
  | xor => .pair .xor x.val y.val

def outcome (op : PlainOp) (a b : UInt8) : UInt8 :=
  match op with
  | addByte kk => UInt8.ofInt (a.toNat + kk)
  | copy => b
  | or => a ||| b
  | and => a &&& b
  | xor => a ^^^ b

end PlainOp

/-! ## Registers -/

namespace Registers

variable {r r' : Registers} {x t : Fin 16} {result flag : UInt8}

/-- Only register `x` is another, and it holds the result. -/
structure Stores (r : Registers) (x : Fin 16) (result : UInt8) (r' : Registers) : Prop where
  target : r'.v.get x = result
  others : ∀ t, t ≠ x → r'.v.get t = r.v.get t
  index : r'.i = r.i
  counter : r'.pc = r.pc

/-- The flag holds `flag`, register `x` the result unless it is the flag, and nothing else is
another. -/
structure Settles (r : Registers) (x : Fin 16) (result flag : UInt8) (r' : Registers) : Prop where
  flag : r'.flag = flag
  target : x ≠ 15 → r'.v.get x = result
  others : ∀ t, t ≠ 15 → t ≠ x → r'.v.get t = r.v.get t
  index : r'.i = r.i
  counter : r'.pc = r.pc

theorem get_set (r : Registers) (x t : Fin 16) (b : UInt8) :
    (r.set x b).v.get t = if x = t then b else r.v.get t :=
  r.getElem_set x t b

theorem stores_set (r : Registers) (x : Fin 16) (b : UInt8) : r.Stores x b (r.set x b) where
  target := by rw [get_set, if_pos rfl]
  others t ht := by rw [get_set, if_neg (Ne.symm ht)]
  index := rfl
  counter := rfl

theorem settles_set (r : Registers) (x : Fin 16) (b : UInt8) (v : Int) :
    r.Settles x b (UInt8.ofInt v) ((r.set x b).setFlag v) where
  flag := (stores_set (r.set x b) 15 (UInt8.ofInt v)).target
  target hx := ((stores_set _ _ _).others x hx).trans (stores_set r x b).target
  others t hflag hx := ((stores_set _ _ _).others t hflag).trans ((stores_set r x b).others t hx)
  index := rfl
  counter := rfl

end Registers

/-! ## Instructions -/

namespace Machine

theorem execute_flagOp (m : Machine) (op : FlagOp) (x y : Fin 16) :
    execute (op.instr x y) m = .ok () { m with
      registers := (m.registers.set x (UInt8.ofInt (op.outcome (m.registers.v.get x).toNat
        (m.registers.v.get y).toNat).1)).setFlag (op.outcome (m.registers.v.get x).toNat
        (m.registers.v.get y).toNat).2 } := by
  cases op with
  | add | sub | subFrom =>
    simp only [FlagOp.instr, execute, executePair, bind_apply, register_fin, setResult_fin,
      FlagOp.outcome]
  | shiftRight | shiftLeft =>
    simp only [FlagOp.instr, execute, executeReg, bind_apply, register_fin, setResult_fin,
      FlagOp.outcome]

theorem execute_plainOp (m : Machine) (op : PlainOp) (x y : Fin 16) :
    execute (op.instr x y) m = .ok () { m with
      registers := m.registers.set x
        (op.outcome (m.registers.v.get x) (m.registers.v.get y)) } := by
  cases op with
  | addByte kk =>
    have hwrap (v : Int) : UInt8.ofInt (v % 256) = UInt8.ofInt v := by
      apply UInt8.toNat_inj.1
      rw [Byte.toNat_ofInt, Byte.toNat_ofInt, Int.emod_emod]
    simp only [PlainOp.instr, execute, executeByte, bind_apply, register_fin, setRegister_fin,
      PlainOp.outcome, Arith.addWrap, hwrap]
  | copy | or | and | xor =>
    simp only [PlainOp.instr, execute, executePair, bind_apply, register_fin, setRegister_fin,
      PlainOp.outcome, Byte.ofInt_toNat]

/-- Results and flags are exact for all bytes, whichever registers are named. An operation with a
flag leaves a byte and a bit that make up the exact answer for the operands as they were, the bit in
the flag, even where the byte was to go there. An operation without a flag writes its first register
alone. No other register changes, nor the index, the counter or any other part of the machine. -/
theorem flag_arithmetic_exact (m : Machine) (x y : Fin 16) :
    (∀ op : FlagOp, ∃ (r f : UInt8) (rs : Registers),
      execute (op.instr x y) m = .ok () { m with registers := rs } ∧
      op.Balanced (m.registers.v.get x).toNat (m.registers.v.get y).toNat r.toNat f.toNat ∧
      (f = 0 ∨ f = 1) ∧ m.registers.Settles x r f rs) ∧
    ∀ op : PlainOp, ∃ rs : Registers,
      execute (op.instr x y) m = .ok () { m with registers := rs } ∧
      m.registers.Stores x (op.outcome (m.registers.v.get x) (m.registers.v.get y)) rs := by
  constructor
  · intro op
    obtain ⟨r, f, hout, hbit, hbalance⟩ :=
      op.exists_bytes (m.registers.v.get x) (m.registers.v.get y)
    have hexecute := execute_flagOp m op x y
    have hsettles := m.registers.settles_set x r f.toNat
    rw [hout, Byte.ofInt_toNat] at hexecute
    rw [Byte.ofInt_toNat] at hsettles
    exact ⟨r, f, _, hexecute, hbalance, hbit, hsettles⟩
  · intro op
    exact ⟨_, execute_plainOp m op x y, m.registers.stores_set x _⟩

end Machine

end Chip8
