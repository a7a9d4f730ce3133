import Chip8.Instr.Mnemonic
import Chip8.Proofs.Decoding
import Chip8.Proofs.Numbers

/-!
# Mnemonics tell instructions apart

A mnemonic is a line of words: `words` lists them. What a word starts with says what it is, a
register, an address, a number or a name, and this is the same for all instructions of an opcode
and different for any two opcodes. So the words tell the opcode, and then each operand. A mnemonic
does not tell the machine word that was decoded, but for the digit that the shifts ignore it does.
-/

namespace Chip8

namespace Op

/-- The words before the address. -/
def Addr.words : Addr → List String
  | sys => ["SYS"]
  | jump => ["JP"]
  | call => ["CALL"]
  | jumpV0 => ["JP", "V0,"]
  | setIndex => ["LD", "I,"]

/-- The words before and after the register. -/
def Reg.words : Reg → List String × List String
  | shiftRight => (["SHR"], [])
  | shiftLeft => (["SHL"], [])
  | skipKey => (["SKP"], [])
  | skipNoKey => (["SKNP"], [])
  | getDelay => (["LD"], ["DT"])
  | waitKey => (["LD"], ["K"])
  | setDelay => (["LD", "DT,"], [])
  | setSound => (["LD", "ST,"], [])
  | addIndex => (["ADD", "I,"], [])
  | glyph => (["LD", "F,"], [])
  | storeDecimal => (["LD", "B,"], [])
  | dump => (["LD", "[I],"], [])
  | load => (["LD"], ["[I]"])

/-- What follows the register in its word. -/
def Reg.comma (op : Reg) : String :=
  if op.words.2 = [] then "" else ","

def Pair.word : Pair → String
  | skipEq => "SE"
  | skipNe => "SNE"
  | copy => "LD"
  | or => "OR"
  | and => "AND"
  | xor => "XOR"
  | add => "ADD"
  | sub => "SUB"
  | subFrom => "SUBN"

def Byte.word : Byte → String
  | skipEq => "SE"
  | skipNe => "SNE"
  | load => "LD"
  | add => "ADD"
  | random => "RND"

end Op

namespace Instr

def words : Instr → List String
  | plain op => [op.text]
  | addr op nnn => op.words ++ ["$" ++ Hex.padded 3 nnn]
  | reg op x => op.words.1 ++ (registerText x ++ op.comma) :: op.words.2
  | pair op x y => [op.word, registerText x ++ ",", registerText y]
  | byte op x kk => [op.word, registerText x ++ ",", "$" ++ Hex.padded 2 kk]
  | draw x y n => ["DRW", registerText x ++ ",", registerText y ++ ",", toString n]

theorem words_ne_nil (i : Instr) : i.words ≠ [] := by
  cases i <;> simp [words]

theorem mnemonic_eq_intercalate (i : Instr) : i.mnemonic = " ".intercalate i.words := by
  apply String.toList_inj.1
  cases i with
  | plain op => cases op <;> rfl
  | addr op nnn => cases op <;> simp [mnemonic, words, Op.Addr.before, Op.Addr.words]
  | reg op x =>
    cases op <;> simp [mnemonic, words, Op.Reg.around, Op.Reg.words, Op.Reg.comma]
  | pair op x y => cases op <;> simp [mnemonic, words, Op.Pair.before, Op.Pair.word]
  | byte op x kk => cases op <;> simp [mnemonic, words, Op.Byte.before, Op.Byte.word]
  | draw x y n => simp [mnemonic, words]

/-! ## Words as they stand in a line -/

theorem isWord_dollar (w : Nat) (n : Int) : IsWord ("$" ++ Hex.padded w n) := by
  have hword : IsWord "$" := by decide
  exact hword.append (unbroken_padded w n)

theorem isWord_registerText (x : Int) : IsWord (registerText x) := by
  have hword : IsWord "V" := by decide
  exact hword.append (unbroken_padded 0 x)

theorem isWord_of_mem_words {i : Instr} {w : String} (h : w ∈ i.words) : IsWord w := by
  have hcomma (x : Int) : IsWord (registerText x ++ ",") :=
    (isWord_registerText x).append (by decide)
  cases i with
  | plain op =>
    have hop : ∀ v ∈ [op.text], IsWord v := by cases op <;> decide
    exact hop w h
  | addr op nnn =>
    have hop : ∀ v ∈ op.words, IsWord v := by cases op <;> decide
    rcases List.mem_append.1 h with hw | hw
    · exact hop w hw
    · rw [List.mem_singleton.1 hw]
      exact isWord_dollar 3 nnn
  | reg op x =>
    have hbefore : ∀ v ∈ op.words.1, IsWord v := by cases op <;> decide
    have hafter : ∀ v ∈ op.words.2, IsWord v := by cases op <;> decide
    have hc : Unbroken op.comma := by cases op <;> decide
    rcases List.mem_append.1 h with hw | hw
    · exact hbefore w hw
    · rcases List.mem_cons.1 hw with rfl | hw
      · exact (isWord_registerText x).append hc
      · exact hafter w hw
  | pair op x y =>
    have hop : IsWord op.word := by cases op <;> decide
    simp only [words, List.mem_cons, List.not_mem_nil, or_false] at h
    rcases h with rfl | rfl | rfl
    · exact hop
    · exact hcomma x
    · exact isWord_registerText y
  | byte op x kk =>
    have hop : IsWord op.word := by cases op <;> decide
    simp only [words, List.mem_cons, List.not_mem_nil, or_false] at h
    rcases h with rfl | rfl | rfl
    · exact hop
    · exact hcomma x
    · exact isWord_dollar 2 kk
  | draw x y n =>
    simp only [words, List.mem_cons, List.not_mem_nil, or_false] at h
    rcases h with rfl | rfl | rfl | rfl
    · decide
    · exact hcomma x
    · exact hcomma y
    · exact isWord_toString n

/-! ## The opcode -/

/-- What a word starts with, where a decimal number starts with any of its characters. -/
def mark (w : String) : Char :=
  match w.toList with
  | [] => ' '
  | c :: _ => if c ∈ Decimal.alphabet then '0' else c

/-- The first word of an instruction, and the marks of the others. -/
def key (i : Instr) : Option String × List Char :=
  (i.words.head?, i.words.tail.map mark)

theorem mark_toString (n : Int) : mark (toString n) = '0' := by
  unfold mark
  cases htext : (toString n).toList with
  | nil => exact absurd htext (Decimal.toString_ne_nil n)
  | cons c cs =>
    have hc : c ∈ (toString n).toList := by
      rw [htext]
      exact List.mem_cons_self
    exact if_pos (Decimal.mem_alphabet_of_mem_toString hc)

theorem mark_dollar (s : String) : mark ("$" ++ s) = '$' := by
  unfold mark
  rw [String.toList_append]
  rfl

theorem mark_registerText (x : Int) (s : String) : mark (registerText x ++ s) = 'V' := by
  unfold mark registerText
  rw [String.toList_append, String.toList_append]
  rfl

theorem mark_last_registerText (x : Int) : mark (registerText x) = 'V' := by
  have h := mark_registerText x ""
  rwa [String.append_empty] at h

/-- The key does not depend on the operands. -/
theorem key_eq (i : Instr) : i.key = (i.opcode.read 0).key := by
  cases i with
  | plain op => rfl
  | addr op nnn => cases op <;> simp [key, words, Op.Addr.words, opcode, Opcode.read, mark_dollar]
  | reg op x =>
    cases op <;> simp [key, words, Op.Reg.words, opcode, Opcode.read, mark_registerText]
  | pair op x y =>
    simp [key, words, opcode, Opcode.read, mark_registerText, mark_last_registerText]
  | byte op x kk => simp [key, words, opcode, Opcode.read, mark_registerText, mark_dollar]
  | draw x y n =>
    simp only [key, words, opcode, Opcode.read, List.head?_cons, List.tail_cons, List.map_cons,
      List.map_nil, mark_registerText, mark_toString]

theorem key_injective : ∀ o ∈ Opcode.all, ∀ o' ∈ Opcode.all,
    (o.read 0).key = (o'.read 0).key → o = o' := by
  decide +kernel

theorem opcode_eq_of_words_eq {i j : Instr} (h : i.words = j.words) : i.opcode = j.opcode := by
  have hkey : i.key = j.key := by
    unfold key
    rw [h]
  rw [key_eq i, key_eq j] at hkey
  exact key_injective _ (Opcode.mem_all _) _ (Opcode.mem_all _) hkey

/-! ## The operands -/

theorem eq_of_registerText_eq {x y : Int} {s : String}
    (h : registerText x ++ s = registerText y ++ s) : x = y := by
  have hregister : registerText x = registerText y := (String.append_left_inj s).1 h
  exact Hex.padded_injective 0 ((String.append_right_inj "V").1 hregister)

theorem eq_of_dollar_eq {w : Nat} {a b : Int}
    (h : "$" ++ Hex.padded w a = "$" ++ Hex.padded w b) : a = b :=
  Hex.padded_injective w ((String.append_right_inj "$").1 h)

/-- The words of an instruction tell what it is. -/
theorem words_injective : Function.Injective words := by
  intro i j h
  have hopcode := opcode_eq_of_words_eq h
  cases i with
  | plain op =>
    cases j with
    | plain op' => rw [Opcode.plain.inj hopcode]
    | _ => cases hopcode
  | addr op a =>
    cases j with
    | addr op' b =>
      obtain rfl : op = op' := Opcode.addr.inj hopcode
      have hlast := List.append_cancel_left h
      rw [eq_of_dollar_eq (List.cons.inj hlast).1]
    | _ => cases hopcode
  | reg op x =>
    cases j with
    | reg op' x' =>
      obtain rfl : op = op' := Opcode.reg.inj hopcode
      have hlast := List.append_cancel_left h
      rw [eq_of_registerText_eq (List.cons.inj hlast).1]
    | _ => cases hopcode
  | pair op x y =>
    cases j with
    | pair op' x' y' =>
      obtain rfl : op = op' := Opcode.pair.inj hopcode
      simp only [words, List.cons.injEq, true_and, and_true] at h
      have hy : registerText y ++ "" = registerText y' ++ "" := by rw [h.2]
      rw [eq_of_registerText_eq h.1, eq_of_registerText_eq hy]
    | _ => cases hopcode
  | byte op x kk =>
    cases j with
    | byte op' x' kk' =>
      obtain rfl : op = op' := Opcode.byte.inj hopcode
      simp only [words, List.cons.injEq, true_and, and_true] at h
      rw [eq_of_registerText_eq h.1, eq_of_dollar_eq h.2]
    | _ => cases hopcode
  | draw x y n =>
    cases j with
    | draw x' y' n' =>
      simp only [words, List.cons.injEq, true_and, and_true] at h
      obtain ⟨hx, hy, hn⟩ := h
      rw [eq_of_registerText_eq hx, eq_of_registerText_eq hy, Decimal.toString_injective hn]
    | _ => cases hopcode

theorem mnemonic_injective : Function.Injective mnemonic := by
  intro i j h
  have hunbroken (i : Instr) : ∀ w ∈ i.words, Unbroken w := fun w hw => (isWord_of_mem_words hw).2
  rw [mnemonic_eq_intercalate, mnemonic_eq_intercalate] at h
  exact words_injective
    (eq_of_intercalate_eq (hunbroken i) (hunbroken j) (words_ne_nil i) (words_ne_nil j) h)

/-! ## Machine words -/

/-- The same shift of the same register. The third digits may differ. -/
def SameShift (v v' : Int) : Prop :=
  v / 4096 = 8 ∧ (v % 16 = 6 ∨ v % 16 = 0xE) ∧ v' / 256 = v / 256 ∧ v' % 16 = v % 16

section

variable {w w' : Nat} {i j : Instr}

theorem exists_word_of_decode {v limit : Int} (h : decode v limit = .ok i) :
    ∃ w : Nat, v = w ∧ w ≤ 0xFFFF ∧ ofWord? w = some i := by
  by_cases hv : 0 ≤ v ∧ v ≤ 0xFFFF
  · obtain ⟨w, rfl⟩ := Int.eq_ofNat_of_zero_le hv.1
    have hw : w ≤ 0xFFFF := by omega
    obtain ⟨hr, hsys, -⟩ := (decode_eq_ok_iff hw).1 h
    exact ⟨w, rfl, hw, (ofWord?_eq_some_iff hw).2 ⟨hr, hsys⟩⟩
  · rw [decode_of_not_word hv] at h
    cases h

theorem ofWord?_of_reg {op : Op.Reg} (hw : w ≤ 0xFFFF) (h : (Opcode.reg op).shape.Matches w) :
    ofWord? w = some (.reg op (w / 256 % 16 : Nat)) :=
  (ofWord?_eq_some_iff hw).2 ⟨.reg h, nofun⟩

theorem sameShift_of_tidy_eq {o : Opcode} (ho : o.IgnoresY) (hm : o.shape.Matches w)
    (hm' : o.shape.Matches w') (hw : w ≤ 0xFFFF) (h : o.tidy w = o.tidy w') : SameShift w w' := by
  unfold Opcode.tidy at h
  rw [if_pos ho, if_pos ho] at h
  unfold SameShift
  rcases ho with rfl | rfl <;>
    simp only [Opcode.shape, Shape.Matches, Sign.Admits, true_and] at hm hm' <;> omega

/-- Words of one instruction are equal, but for the digit that shifts ignore. -/
theorem eq_iff_of_ofWord? (hw : w ≤ 0xFFFF) (hw' : w' ≤ 0xFFFF) (hi : ofWord? w = some i)
    (hj : ofWord? w' = some j) : i = j ↔ (w : Int) = w' ∨ SameShift w w' := by
  constructor
  · rintro rfl
    have hr := ((ofWord?_eq_some_iff hw).1 hi).1
    have hr' := ((ofWord?_eq_some_iff hw').1 hj).1
    have htidy : i.opcode.tidy w = i.opcode.tidy w' :=
      ((reads_iff_word_eq hw).1 hr).2.symm.trans ((reads_iff_word_eq hw').1 hr').2
    by_cases hy : i.opcode.IgnoresY
    · exact .inr (sameShift_of_tidy_eq hy hr.opcode_matches hr'.opcode_matches hw htidy)
    · unfold Opcode.tidy at htidy
      rw [if_neg hy, if_neg hy] at htidy
      exact .inl (congrArg _ htidy)
  · rintro (h | ⟨hfirst, hlast, hregister, hend⟩)
    · rw [Int.natCast_inj.1 h, hj] at hi
      exact (Option.some.inj hi).symm
    · obtain ⟨op, hm, hm'⟩ : ∃ op, (Opcode.reg op).shape.Matches w ∧
          (Opcode.reg op).shape.Matches w' := by
        rcases hlast with hlast | hlast
        · refine ⟨.shiftRight, ?_⟩
          simp only [Opcode.shape, Shape.Matches, Sign.Admits, true_and]
          omega
        · refine ⟨.shiftLeft, ?_⟩
          simp only [Opcode.shape, Shape.Matches, Sign.Admits, true_and]
          omega
      rw [ofWord?_of_reg hw hm] at hi
      rw [ofWord?_of_reg hw' hm'] at hj
      rw [← Option.some.inj hi, ← Option.some.inj hj, show w / 256 = w' / 256 by omega]

end

/-- Mnemonics are unambiguous. Two instructions with the same mnemonic are the same instruction,
whatever their operands, also those that fit no word. So words that decode, under whatever limits,
have the same mnemonic just if they decode to the same instruction, and this just if they are equal
but for the third digit of a shift. -/
theorem mnemonics_unambiguous :
    (∀ i j : Instr, i.mnemonic = j.mnemonic → i = j) ∧
    ∀ (v v' limit limit' : Int) (i j : Instr),
      decode v limit = .ok i → decode v' limit' = .ok j →
      (i.mnemonic = j.mnemonic ↔ i = j) ∧ (i = j ↔ v = v' ∨ SameShift v v') := by
  refine ⟨fun i j h => mnemonic_injective h, fun v v' limit limit' i j hi hj => ?_⟩
  obtain ⟨w, rfl, hw, hword⟩ := exists_word_of_decode hi
  obtain ⟨w', rfl, hw', hword'⟩ := exists_word_of_decode hj
  exact ⟨mnemonic_injective.eq_iff, eq_iff_of_ofWord? hw hw' hword hword'⟩

/-- Two words of one shift, which share their mnemonic with each other and not with a word of the
other shift. -/
theorem mnemonics_unambiguous_shifts :
    decode 0x8AB6 0 = .ok (.reg .shiftRight 0xA) ∧ decode 0x8A36 7 = .ok (.reg .shiftRight 0xA) ∧
      SameShift 0x8AB6 0x8A36 ∧ decode 0x8ABE 0 = .ok (.reg .shiftLeft 0xA) ∧
      (reg .shiftRight 0xA).mnemonic ≠ (reg .shiftLeft 0xA).mnemonic := by
  have hright : decode 0x8AB6 0 = .ok (.reg .shiftRight 0xA) := rfl
  have hother : decode 0x8A36 7 = .ok (.reg .shiftRight 0xA) := rfl
  have hleft : decode 0x8ABE 0 = .ok (.reg .shiftLeft 0xA) := rfl
  have hsame := (mnemonics_unambiguous.2 _ _ _ _ _ _ hright hother).2.1 rfl
  have hdiffer := mnemonics_unambiguous.2 _ _ _ _ _ _ hright hleft
  exact ⟨hright, hother, hsame.resolve_left (by decide), hleft, fun h => by
    cases hdiffer.1.1 h⟩

end Instr

end Chip8
