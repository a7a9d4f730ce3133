import Mathlib.Data.Nat.Bitwise
import Chip8.Proofs.Operands

/-!
# The grammar of instruction words

A word has four hexadecimal digits. The `shape` of an opcode says which of them it fixes, and a
word `Reads` as an instruction if it has the shape of its opcode and the operands are its fields.
`matchesWord_iff` ties shapes to the masks and patterns of `Opcode`: a mask covers exactly the
fixed digits of the shape, and the pattern holds them.
-/

namespace Chip8

/-- What a digit of a word has to be. -/
inductive Sign where
  | is (d : Fin 16)
  | any
  deriving DecidableEq, Repr

namespace Sign

def Admits : Sign → Nat → Prop
  | is d, n => n = d.val
  | any, _ => True

instance : (s : Sign) → (n : Nat) → Decidable (s.Admits n)
  | is d, n => inferInstanceAs (Decidable (n = d.val))
  | any, _ => inferInstanceAs (Decidable True)

def mask : Sign → Nat
  | is _ => 0xF
  | any => 0

def bits : Sign → Nat
  | is d => d.val
  | any => 0

theorem mask_lt (s : Sign) : s.mask < 2 ^ 4 := by
  cases s <;> simp [mask]

theorem bits_lt (s : Sign) : s.bits < 16 := by
  cases s with
  | is d => exact d.isLt
  | any => exact Nat.succ_pos 15

theorem land_mask_lt (s : Sign) (n : Nat) : n &&& s.mask < 16 :=
  Nat.lt_of_le_of_lt Nat.and_le_right s.mask_lt

theorem land_mask_eq_iff (s : Sign) (n : Nat) : n &&& s.mask = s.bits ↔ s.Admits (n % 16) := by
  cases s with
  | is d =>
    show n &&& (2 ^ 4 - 1) = d.val ↔ n % 16 = d.val
    rw [Nat.and_two_pow_sub_one_eq_mod]
  | any => simp [mask, bits, Admits]

/-- A mask acts on the last digit and on the digits before it separately. -/
theorem land_concat (n m : Nat) (s : Sign) :
    n &&& (2 ^ 4 * m + s.mask) = 2 ^ 4 * (n / 2 ^ 4 &&& m) + (n &&& s.mask) := by
  refine Nat.eq_of_testBit_eq fun j => ?_
  have hlt : n &&& s.mask < 2 ^ 4 := s.land_mask_lt n
  rw [Nat.testBit_and, Nat.testBit_two_pow_mul_add _ s.mask_lt, Nat.testBit_two_pow_mul_add _ hlt]
  by_cases hj : j < 4
  · rw [if_pos hj, if_pos hj, Nat.testBit_and]
  · rw [if_neg hj, if_neg hj, Nat.testBit_and, Nat.testBit_div_two_pow,
      show j - 4 + 4 = j by omega]

end Sign

/-! ## Shapes -/

/-- The signs of the four digits of a word, the highest digit first. -/
structure Shape where
  first : Sign
  second : Sign
  third : Sign
  fourth : Sign
  deriving DecidableEq, Repr

namespace Shape

def Matches (s : Shape) (w : Nat) : Prop :=
  s.first.Admits (w / 4096 % 16) ∧ s.second.Admits (w / 256 % 16) ∧
    s.third.Admits (w / 16 % 16) ∧ s.fourth.Admits (w % 16)

instance (s : Shape) (w : Nat) : Decidable (s.Matches w) :=
  inferInstanceAs (Decidable (_ ∧ _))

def mask (s : Shape) : Nat :=
  2 ^ 4 * (2 ^ 4 * (2 ^ 4 * s.first.mask + s.second.mask) + s.third.mask) + s.fourth.mask

def bits (s : Shape) : Nat :=
  2 ^ 4 * (2 ^ 4 * (2 ^ 4 * s.first.bits + s.second.bits) + s.third.bits) + s.fourth.bits

theorem land_mask_eq_iff (s : Shape) (w : Nat) : w &&& s.mask = s.bits ↔ s.Matches w := by
  have h₁ := s.first.land_mask_lt (w / 2 ^ 4 / 2 ^ 4 / 2 ^ 4)
  have h₂ := s.second.land_mask_lt (w / 2 ^ 4 / 2 ^ 4)
  have h₃ := s.third.land_mask_lt (w / 2 ^ 4)
  have h₄ := s.fourth.land_mask_lt w
  have b₁ := s.first.bits_lt
  have b₂ := s.second.bits_lt
  have b₃ := s.third.bits_lt
  have b₄ := s.fourth.bits_lt
  unfold mask bits Matches
  rw [Sign.land_concat, Sign.land_concat, Sign.land_concat, show w / 16 = w / 2 ^ 4 by omega,
    show w / 256 = w / 2 ^ 4 / 2 ^ 4 by omega, show w / 4096 = w / 2 ^ 4 / 2 ^ 4 / 2 ^ 4 by omega,
    ← s.first.land_mask_eq_iff, ← s.second.land_mask_eq_iff, ← s.third.land_mask_eq_iff,
    ← s.fourth.land_mask_eq_iff]
  -- Both sides now speak of the same four digits, each below 16.
  omega

end Shape

namespace Opcode

def shape : Opcode → Shape
  | plain .clear => ⟨.is 0, .is 0, .is 0xE, .is 0⟩
  | plain .ret => ⟨.is 0, .is 0, .is 0xE, .is 0xE⟩
  | addr .sys => ⟨.is 0, .any, .any, .any⟩
  | addr .jump => ⟨.is 1, .any, .any, .any⟩
  | addr .call => ⟨.is 2, .any, .any, .any⟩
  | byte .skipEq => ⟨.is 3, .any, .any, .any⟩
  | byte .skipNe => ⟨.is 4, .any, .any, .any⟩
  | pair .skipEq => ⟨.is 5, .any, .any, .is 0⟩
  | byte .load => ⟨.is 6, .any, .any, .any⟩
  | byte .add => ⟨.is 7, .any, .any, .any⟩
  | pair .copy => ⟨.is 8, .any, .any, .is 0⟩
  | pair .or => ⟨.is 8, .any, .any, .is 1⟩
  | pair .and => ⟨.is 8, .any, .any, .is 2⟩
  | pair .xor => ⟨.is 8, .any, .any, .is 3⟩
  | pair .add => ⟨.is 8, .any, .any, .is 4⟩
  | pair .sub => ⟨.is 8, .any, .any, .is 5⟩
  | reg .shiftRight => ⟨.is 8, .any, .any, .is 6⟩
  | pair .subFrom => ⟨.is 8, .any, .any, .is 7⟩
  | reg .shiftLeft => ⟨.is 8, .any, .any, .is 0xE⟩
  | pair .skipNe => ⟨.is 9, .any, .any, .is 0⟩
  | addr .setIndex => ⟨.is 0xA, .any, .any, .any⟩
  | addr .jumpV0 => ⟨.is 0xB, .any, .any, .any⟩
  | byte .random => ⟨.is 0xC, .any, .any, .any⟩
  | draw => ⟨.is 0xD, .any, .any, .any⟩
  | reg .skipKey => ⟨.is 0xE, .any, .is 9, .is 0xE⟩
  | reg .skipNoKey => ⟨.is 0xE, .any, .is 0xA, .is 1⟩
  | reg .getDelay => ⟨.is 0xF, .any, .is 0, .is 7⟩
  | reg .waitKey => ⟨.is 0xF, .any, .is 0, .is 0xA⟩
  | reg .setDelay => ⟨.is 0xF, .any, .is 1, .is 5⟩
  | reg .setSound => ⟨.is 0xF, .any, .is 1, .is 8⟩
  | reg .addIndex => ⟨.is 0xF, .any, .is 1, .is 0xE⟩
  | reg .glyph => ⟨.is 0xF, .any, .is 2, .is 9⟩
  | reg .storeDecimal => ⟨.is 0xF, .any, .is 3, .is 3⟩
  | reg .dump => ⟨.is 0xF, .any, .is 5, .is 5⟩
  | reg .load => ⟨.is 0xF, .any, .is 6, .is 5⟩

theorem mask_eq (o : Opcode) : o.mask = o.shape.mask := by
  rcases o with op | op | op | op | op | _ <;> first | (cases op <;> rfl) | rfl

theorem pattern_eq (o : Opcode) : o.pattern = o.shape.bits := by
  rcases o with op | op | op | op | op | _ <;> first | (cases op <;> rfl) | rfl

theorem matchesWord_iff {o : Opcode} {w : Nat} : o.matchesWord w = true ↔ o.shape.Matches w := by
  rw [matchesWord, beq_iff_eq, mask_eq, pattern_eq]
  exact o.shape.land_mask_eq_iff w

/-- The two shifts take any third digit, though they have no second register. -/
def IgnoresY (o : Opcode) : Prop :=
  o = .reg .shiftRight ∨ o = .reg .shiftLeft

instance (o : Opcode) : Decidable o.IgnoresY :=
  inferInstanceAs (Decidable (_ ∨ _))

end Opcode

/-! ## Reading -/

/-- The word `w` has the shape of the opcode of an instruction, and its operands are fields of
`w`. -/
inductive Reads (w : Nat) : Instr → Prop where
  | plain {op : Op.Plain} (h : (Opcode.plain op).shape.Matches w) : Reads w (.plain op)
  | addr {op : Op.Addr} (h : (Opcode.addr op).shape.Matches w) :
      Reads w (.addr op (w % 4096 : Nat))
  | reg {op : Op.Reg} (h : (Opcode.reg op).shape.Matches w) :
      Reads w (.reg op (w / 256 % 16 : Nat))
  | pair {op : Op.Pair} (h : (Opcode.pair op).shape.Matches w) :
      Reads w (.pair op (w / 256 % 16 : Nat) (w / 16 % 16 : Nat))
  | byte {op : Op.Byte} (h : (Opcode.byte op).shape.Matches w) :
      Reads w (.byte op (w / 256 % 16 : Nat) (w % 256 : Nat))
  | draw (h : Opcode.draw.shape.Matches w) :
      Reads w (.draw (w / 256 % 16 : Nat) (w / 16 % 16 : Nat) (w % 16 : Nat))

theorem Opcode.read_eq (w : Nat) (o : Opcode) : o.read w = match o with
    | .plain op => .plain op
    | .addr op => .addr op (w % 4096 : Nat)
    | .reg op => .reg op (w / 256 % 16 : Nat)
    | .pair op => .pair op (w / 256 % 16 : Nat) (w / 16 % 16 : Nat)
    | .byte op => .byte op (w / 256 % 16 : Nat) (w % 256 : Nat)
    | .draw => .draw (w / 256 % 16 : Nat) (w / 16 % 16 : Nat) (w % 16 : Nat) := by
  cases o <;> simp [read, Field.get, Field.shift, Field.bits, Nat.shiftRight_eq_div_pow]

namespace Reads

variable {w : Nat} {i : Instr} {o : Opcode}

theorem opcode_matches (h : Reads w i) : i.opcode.shape.Matches w := by
  cases h <;> assumption

theorem eq_read (h : Reads w i) : i = i.opcode.read w := by
  rw [Opcode.read_eq]
  cases h <;> rfl

theorem read (h : o.shape.Matches w) : Reads w (o.read w) := by
  rw [Opcode.read_eq]
  cases o with
  | plain op => exact .plain h
  | addr op => exact .addr h
  | reg op => exact .reg h
  | pair op => exact .pair h
  | byte op => exact .byte h
  | draw => exact .draw h

end Reads

end Chip8
