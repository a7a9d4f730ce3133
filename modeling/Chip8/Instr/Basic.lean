/-!
# Instructions

An instruction is an opcode with operands. The opcodes fall into groups by the
operands they take: none, an address, one register, a pair of registers, a
register and a byte, or (`draw` alone) two registers and a height. Operands are
whole numbers, so that an instruction that fits no word can be written down and
refused. `Instr.operands` lists them with the fields they go to.
-/

namespace Chip8

namespace Op

/-- Opcodes without operands. -/
inductive Plain where
  | clear
  | ret
  deriving DecidableEq, Repr

/-- Opcodes with an address. -/
inductive Addr where
  | sys
  | jump
  | call
  | jumpV0
  | setIndex
  deriving DecidableEq, Repr

/-- Opcodes with one register. -/
inductive Reg where
  | shiftRight
  | shiftLeft
  | skipKey
  | skipNoKey
  | getDelay
  | waitKey
  | setDelay
  | setSound
  | addIndex
  | glyph
  | storeDecimal
  | dump
  | load
  deriving DecidableEq, Repr

/-- Opcodes with two registers. -/
inductive Pair where
  | skipEq
  | skipNe
  | copy
  | or
  | and
  | xor
  | add
  | sub
  | subFrom
  deriving DecidableEq, Repr

/-- Opcodes with a register and a byte. -/
inductive Byte where
  | skipEq
  | skipNe
  | load
  | add
  | random
  deriving DecidableEq, Repr

end Op

inductive Opcode where
  | plain (op : Op.Plain)
  | addr (op : Op.Addr)
  | reg (op : Op.Reg)
  | pair (op : Op.Pair)
  | byte (op : Op.Byte)
  | draw
  deriving DecidableEq, Repr

inductive Instr where
  | plain (op : Op.Plain)
  | addr (op : Op.Addr) (nnn : Int)
  | reg (op : Op.Reg) (x : Int)
  | pair (op : Op.Pair) (x y : Int)
  | byte (op : Op.Byte) (x kk : Int)
  | draw (x y n : Int)
  deriving DecidableEq, Repr

/-! ## Fields -/

/-- The places of an instruction word that hold operands. -/
inductive Field where
  | addr
  | x
  | y
  | kk
  | n
  deriving DecidableEq, Repr

namespace Field

def name : Field → String
  | addr => "addr"
  | x => "x"
  | y => "y"
  | kk => "kk"
  | n => "n"

/-- The position of the lowest bit. -/
def shift : Field → Nat
  | addr => 0
  | x => 8
  | y => 4
  | kk => 0
  | n => 0

def bits : Field → Nat
  | addr => 12
  | x => 4
  | y => 4
  | kk => 8
  | n => 4

def Fits (f : Field) (v : Int) : Prop :=
  0 ≤ v ∧ v < (1 <<< f.bits : Nat)

instance (f : Field) (v : Int) : Decidable (f.Fits v) :=
  inferInstanceAs (Decidable (_ ∧ _))

/-- What a word holds in the field. -/
def get (f : Field) (w : Nat) : Nat :=
  w >>> f.shift % 1 <<< f.bits

theorem fits_get (f : Field) (w : Nat) : f.Fits (f.get w) := by
  have hpos : 0 < 1 <<< f.bits := by
    rw [Nat.one_shiftLeft]
    exact Nat.two_pow_pos _
  have hlt : f.get w < 1 <<< f.bits := Nat.mod_lt _ hpos
  exact ⟨Int.natCast_nonneg _, Int.ofNat_lt.2 hlt⟩

end Field

namespace Instr

def opcode : Instr → Opcode
  | plain op => .plain op
  | addr op _ => .addr op
  | reg op _ => .reg op
  | pair op _ _ => .pair op
  | byte op _ _ => .byte op
  | draw _ _ _ => .draw

def operands : Instr → List (Field × Int)
  | plain _ => []
  | addr _ nnn => [(.addr, nnn)]
  | reg _ x => [(.x, x)]
  | pair _ x y => [(.x, x), (.y, y)]
  | byte _ x kk => [(.x, x), (.kk, kk)]
  | draw x y n => [(.x, x), (.y, y), (.n, n)]

def address? : Instr → Option Int
  | addr _ nnn => some nnn
  | _ => none

end Instr

namespace Opcode

/-- The instruction of an opcode with the operands that a word holds. -/
def read (w : Nat) : Opcode → Instr
  | plain op => .plain op
  | addr op => .addr op (Field.addr.get w)
  | reg op => .reg op (Field.x.get w)
  | pair op => .pair op (Field.x.get w) (Field.y.get w)
  | byte op => .byte op (Field.x.get w) (Field.kk.get w)
  | draw => .draw (Field.x.get w) (Field.y.get w) (Field.n.get w)

theorem opcode_read (w : Nat) (o : Opcode) : (o.read w).opcode = o := by
  cases o <;> rfl

theorem fits_of_mem_operands_read {w : Nat} {o : Opcode} {f : Field} {v : Int}
    (h : (f, v) ∈ (o.read w).operands) : f.Fits v := by
  cases o <;> simp only [read, Instr.operands, List.mem_cons, List.not_mem_nil, or_false,
    Prod.mk.injEq] at h <;> grind [Field.fits_get]

/-! ## The list of opcodes -/

def plains : List Op.Plain :=
  [.clear, .ret]

def addrs : List Op.Addr :=
  [.sys, .jump, .call, .jumpV0, .setIndex]

def regs : List Op.Reg :=
  [.shiftRight, .shiftLeft, .skipKey, .skipNoKey, .getDelay, .waitKey, .setDelay, .setSound,
   .addIndex, .glyph, .storeDecimal, .dump, .load]

def pairs : List Op.Pair :=
  [.skipEq, .skipNe, .copy, .or, .and, .xor, .add, .sub, .subFrom]

def bytes : List Op.Byte :=
  [.skipEq, .skipNe, .load, .add, .random]

/-- All opcodes, those with more fixed bits first. -/
def all : List Opcode :=
  plains.map plain ++ regs.map reg ++ pairs.map pair ++ addrs.map addr ++ bytes.map byte ++ [draw]

theorem mem_all (o : Opcode) : o ∈ all := by
  rcases o with op | op | op | op | op | _ <;> first | (cases op <;> decide) | decide

theorem length_all : all.length = 35 := rfl

end Opcode

end Chip8
