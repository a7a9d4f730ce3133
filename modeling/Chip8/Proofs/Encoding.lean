import Chip8.Proofs.Grammar

/-!
# Writing instructions as words

The word of an instruction whose operands fit has the fixed digits of its opcode and, in the
others, the operands. `reads_iff_word_eq` turns this into a law of the grammar: a word reads as
those instructions whose word it is, but for a digit that the shifts ignore and that is written
as zero. `encode_of_not_fits` says which operand is refused, and how.
-/

namespace Chip8

/-! ## Shapes by group -/

namespace Opcode

theorem shape_plain (op : Op.Plain) :
    ∃ d : Fin 16, (plain op).shape = ⟨.is 0, .is 0, .is 0xE, .is d⟩ := by
  cases op <;> exact ⟨_, rfl⟩

theorem shape_addr (op : Op.Addr) :
    ∃ k : Fin 16, (addr op).shape = ⟨.is k, .any, .any, .any⟩ := by
  cases op <;> exact ⟨_, rfl⟩

theorem shape_reg (op : Op.Reg) : ∃ (k d : Fin 16) (s : Sign),
    (reg op).shape = ⟨.is k, .any, s, .is d⟩ ∧ ((reg op).IgnoresY ↔ s = .any) := by
  cases op <;> exact ⟨_, _, _, rfl, by decide⟩

theorem shape_pair (op : Op.Pair) :
    ∃ k d : Fin 16, (pair op).shape = ⟨.is k, .any, .any, .is d⟩ := by
  cases op <;> exact ⟨_, _, rfl⟩

theorem shape_byte (op : Op.Byte) :
    ∃ k : Fin 16, (byte op).shape = ⟨.is k, .any, .any, .any⟩ := by
  cases op <;> exact ⟨_, rfl⟩

theorem pattern_add_operandBits_le : ∀ o ∈ all, o.pattern + o.operandBits ≤ 0xFFFF := by
  decide

/-- A word as the opcode writes it: the digit that a shift ignores is zero. -/
def tidy (o : Opcode) (w : Nat) : Nat :=
  if o.IgnoresY then w - w / 16 % 16 * 16 else w

end Opcode

namespace Instr

variable {w : Nat} {i : Instr}

/-! ## Words by group -/

theorem word_plain (op : Op.Plain) : (plain op).word = (Opcode.plain op).shape.bits := by
  simp [word, operands, opcode, Opcode.pattern_eq]

theorem word_addr (op : Op.Addr) (nnn : Int) :
    (addr op nnn).word = (Opcode.addr op).shape.bits + nnn.toNat := by
  simp [word, operands, opcode, Field.shift, Opcode.pattern_eq]

theorem word_reg (op : Op.Reg) (x : Int) :
    (reg op x).word = (Opcode.reg op).shape.bits + x.toNat * 256 := by
  simp [word, operands, opcode, Field.shift, Opcode.pattern_eq, Nat.shiftLeft_eq]

theorem word_pair (op : Op.Pair) (x y : Int) :
    (pair op x y).word = (Opcode.pair op).shape.bits + x.toNat * 256 + y.toNat * 16 := by
  simp [word, operands, opcode, Field.shift, Opcode.pattern_eq, Nat.shiftLeft_eq]

theorem word_byte (op : Op.Byte) (x kk : Int) :
    (byte op x kk).word = (Opcode.byte op).shape.bits + x.toNat * 256 + kk.toNat := by
  simp [word, operands, opcode, Field.shift, Opcode.pattern_eq, Nat.shiftLeft_eq]

theorem word_draw (x y n : Int) :
    (draw x y n).word = Opcode.draw.shape.bits + x.toNat * 256 + y.toNat * 16 + n.toNat := by
  simp [word, operands, opcode, Field.shift, Opcode.pattern_eq, Nat.shiftLeft_eq]

theorem fits_iff : i.Fits ↔ match i with
    | plain _ => True
    | addr _ nnn => 0 ≤ nnn ∧ nnn < 4096
    | reg _ x => 0 ≤ x ∧ x < 16
    | pair _ x y => (0 ≤ x ∧ x < 16) ∧ 0 ≤ y ∧ y < 16
    | byte _ x kk => (0 ≤ x ∧ x < 16) ∧ 0 ≤ kk ∧ kk < 256
    | draw x y n => (0 ≤ x ∧ x < 16) ∧ (0 ≤ y ∧ y < 16) ∧ 0 ≤ n ∧ n < 16 := by
  cases i <;> simp [Fits, operands, Field.Fits, Field.bits, Nat.one_shiftLeft]

theorem reads_iff : Reads w i ↔ i.opcode.shape.Matches w ∧ match i with
    | plain _ => True
    | addr _ nnn => nnn = (w % 4096 : Nat)
    | reg _ x => x = (w / 256 % 16 : Nat)
    | pair _ x y => x = (w / 256 % 16 : Nat) ∧ y = (w / 16 % 16 : Nat)
    | byte _ x kk => x = (w / 256 % 16 : Nat) ∧ kk = (w % 256 : Nat)
    | draw x y n => x = (w / 256 % 16 : Nat) ∧ y = (w / 16 % 16 : Nat) ∧ n = (w % 16 : Nat) := by
  constructor
  · intro h
    refine ⟨h.opcode_matches, ?_⟩
    cases h <;> simp
  · rintro ⟨hm, h⟩
    have hr := Reads.read hm
    rw [Opcode.read_eq] at hr
    cases i <;> simp_all [opcode]

theorem reads_iff_word_eq (hw : w ≤ 0xFFFF) :
    Reads w i ↔ i.Fits ∧ i.word = i.opcode.tidy w := by
  rw [reads_iff, fits_iff]
  cases i with
  | plain op =>
    obtain ⟨d, hs⟩ := Opcode.shape_plain op
    rw [word_plain, Opcode.tidy, if_neg (by simp [Opcode.IgnoresY, opcode])]
    simp only [opcode, hs, Shape.Matches, Shape.bits, Sign.Admits, Sign.bits, and_true, true_and]
    omega
  | addr op nnn =>
    obtain ⟨k, hs⟩ := Opcode.shape_addr op
    rw [word_addr, Opcode.tidy, if_neg (by simp [Opcode.IgnoresY, opcode])]
    simp only [opcode, hs, Shape.Matches, Shape.bits, Sign.Admits, Sign.bits, and_true]
    omega
  | reg op x =>
    obtain ⟨k, d, s, hs, hi⟩ := Opcode.shape_reg op
    rw [word_reg, Opcode.tidy]
    simp only [opcode, hs, hi, Shape.Matches, Shape.bits]
    cases s with
    | any =>
      simp only [Sign.Admits, Sign.bits, true_and, if_true]
      omega
    | is e =>
      simp only [Sign.Admits, Sign.bits, true_and, reduceCtorEq, if_false]
      omega
  | pair op x y =>
    obtain ⟨k, d, hs⟩ := Opcode.shape_pair op
    rw [word_pair, Opcode.tidy, if_neg (by simp [Opcode.IgnoresY, opcode])]
    simp only [opcode, hs, Shape.Matches, Shape.bits, Sign.Admits, Sign.bits, true_and]
    omega
  | byte op x kk =>
    obtain ⟨k, hs⟩ := Opcode.shape_byte op
    rw [word_byte, Opcode.tidy, if_neg (by simp [Opcode.IgnoresY, opcode])]
    simp only [opcode, hs, Shape.Matches, Shape.bits, Sign.Admits, Sign.bits, and_true]
    omega
  | draw x y n =>
    rw [word_draw, Opcode.tidy, if_neg (by simp [Opcode.IgnoresY, opcode])]
    simp only [opcode, Opcode.shape, Shape.Matches, Shape.bits, Sign.Admits, Sign.bits, and_true]
    omega

theorem word_le (h : i.Fits) : i.word ≤ 0xFFFF := by
  have hsum : i.opcode.pattern + i.opcode.operandBits ≤ 0xFFFF :=
    Opcode.pattern_add_operandBits_le _ (Opcode.mem_all _)
  have hword : i.word ≤ i.opcode.pattern + i.opcode.operandBits := by
    rw [fits_iff] at h
    cases i <;> simp [word, operands, opcode, Field.shift, Nat.shiftLeft_eq,
      Opcode.operandBits] at h ⊢ <;> omega
  omega

theorem tidy_word (i : Instr) : i.opcode.tidy i.word = i.word := by
  by_cases h : i.opcode.IgnoresY
  · rw [Opcode.tidy, if_pos h]
    cases i with
    | reg op x =>
      rw [word_reg]
      rcases h with h | h <;> cases h <;> simp only [Opcode.shape, Shape.bits, Sign.bits] <;> omega
    | _ => rcases h with h | h <;> cases h
  · exact if_neg h

/-- An instruction whose operands fit is read from its word. -/
theorem reads_word (h : i.Fits) : Reads i.word i :=
  (reads_iff_word_eq (word_le h)).2 ⟨h, (tidy_word i).symm⟩

/-! ## Encoding -/

/-- How an operand that does not fit its field is refused. -/
def refusal (i : Instr) (p : Field × Int) : Failure :=
  if p.1 = .addr then .fault (.invalidAddress p.2)
  else .misuse (.operandTooWide i.opcode.name p.1.name p.2 p.1.bits)

theorem encode_of_fits (h : i.Fits) : i.encode = .ok i.word := by
  have hnone : i.misfit? = none := by
    unfold misfit?
    rw [List.find?_eq_none]
    intro p hp
    simp [h p hp]
  simp only [encode, hnone]

/-- The first operand that does not fit is refused. -/
theorem encode_of_not_fits (h : ¬ i.Fits) : ∃ before p after, i.operands = before ++ p :: after ∧
    (∀ q ∈ before, q.1.Fits q.2) ∧ ¬ p.1.Fits p.2 ∧ i.encode = .error (i.refusal p) := by
  have hsome : i.misfit?.isSome := by
    unfold misfit?
    rw [List.find?_isSome]
    unfold Fits at h
    simpa using h
  obtain ⟨p, hp⟩ := Option.isSome_iff_exists.1 hsome
  obtain ⟨hbad, before, after, hsplit, hbefore⟩ := List.find?_eq_some_iff_append.1 hp
  refine ⟨before, p, after, hsplit, by simpa using hbefore, by simpa using hbad, ?_⟩
  unfold encode refusal
  rw [hp]
  obtain ⟨f, v⟩ := p
  cases f <;> rfl

end Instr

end Chip8
