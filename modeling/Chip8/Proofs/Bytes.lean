import Mathlib.Data.Nat.Bitwise
import Chip8.Screen

/-!
# Bytes and words

A byte or a word made from a whole number holds it modulo its width; `toNat_ofInt` says so for
each, and what already fits comes back unchanged. The pixels of a byte are its bits from the
left; an exclusive or acts on each, and a shift moves them.
-/

namespace Chip8

namespace Byte

theorem toNat_ofInt (v : Int) : (UInt8.ofInt v).toNat = (v % 256).toNat := by
  have h : (v % 256).toNat < 256 := by omega
  simp [UInt8.ofInt, Nat.mod_eq_of_lt h]

@[simp] theorem ofInt_toNat (b : UInt8) : UInt8.ofInt b.toNat = b := by
  apply UInt8.toNat_inj.1
  rw [toNat_ofInt]
  have := b.toNat_lt
  omega

theorem map_ofInt_toNat (bs : List UInt8) :
    (bs.map fun b => (b.toNat : Int)).map UInt8.ofInt = bs := by
  have hid : UInt8.ofInt ∘ (fun b : UInt8 => (b.toNat : Int)) = id :=
    funext fun b => ofInt_toNat b
  rw [List.map_map, hid, List.map_id]

theorem getD_map_ofInt (vs : List Int) (k : Nat) :
    (vs.map UInt8.ofInt).getD k 0 = UInt8.ofInt (vs.getD k 0) := by
  rw [List.getD_eq_getElem?_getD, List.getD_eq_getElem?_getD, List.getElem?_map]
  cases vs[k]? <;> rfl

/-! ## Pixels -/

/-- Pixel `j` from the left is bit `7 - j`. -/
theorem bitAt_eq_testBit (b : UInt8) {j : Nat} (hj : j < 8) :
    Screen.bitAt b j = b.toNat.testBit (7 - j) := by
  have hmask : ∀ j : Fin 8, ((0x80 : UInt8) >>> UInt8.ofNat j.val).toNat = 2 ^ (7 - j.val) := by
    decide
  have hand : (b &&& (0x80 >>> UInt8.ofNat j)).toNat =
      (b.toNat.testBit (7 - j)).toNat * 2 ^ (7 - j) := by
    rw [UInt8.toNat_and, hmask ⟨j, hj⟩, Nat.and_two_pow]
  unfold Screen.bitAt
  cases hb : b.toNat.testBit (7 - j) with
  | false =>
    rw [hb, Bool.toNat_false, Nat.zero_mul] at hand
    have hz : b &&& (0x80 >>> UInt8.ofNat j) = 0 := UInt8.toNat_inj.1 hand
    rw [hz]
    rfl
  | true =>
    rw [hb, Bool.toNat_true, Nat.one_mul] at hand
    rw [bne_iff_ne]
    intro h0
    rw [h0] at hand
    exact absurd hand.symm (Nat.two_pow_pos _).ne'

/-- A byte has no bits past its eighth. -/
theorem testBit_of_le (b : UInt8) {k : Nat} (hk : 8 ≤ k) : b.toNat.testBit k = false :=
  Nat.testBit_lt_two_pow (Nat.lt_of_lt_of_le b.toNat_lt (Nat.pow_le_pow_right Nat.two_pos hk))

/-- A byte is told by its pixels. -/
theorem eq_of_bitAt {a b : UInt8} (h : ∀ j < 8, Screen.bitAt a j = Screen.bitAt b j) : a = b := by
  refine UInt8.toNat_inj.1 (Nat.eq_of_testBit_eq fun k => ?_)
  by_cases hk : k < 8
  · have hbit := h (7 - k) (by omega)
    rwa [bitAt_eq_testBit _ (by omega), bitAt_eq_testBit _ (by omega),
      show 7 - (7 - k) = k by omega] at hbit
  · rw [testBit_of_le a (by omega), testBit_of_le b (by omega)]

theorem bitAt_xor (a b : UInt8) {j : Nat} (hj : j < 8) :
    Screen.bitAt (a ^^^ b) j = (Screen.bitAt a j ^^ Screen.bitAt b j) := by
  rw [bitAt_eq_testBit _ hj, bitAt_eq_testBit _ hj, bitAt_eq_testBit _ hj, UInt8.toNat_xor,
    Nat.testBit_xor]

theorem bitAt_shiftRight (b : UInt8) {s j : Nat} (hs : s < 8) (hj : j < 8) :
    Screen.bitAt (b >>> UInt8.ofNat s) j = (decide (s ≤ j) && Screen.bitAt b (j - s)) := by
  have hs' : (UInt8.ofNat s).toNat % 8 = s := by rw [UInt8.toNat_ofNat']; omega
  rw [bitAt_eq_testBit _ hj, UInt8.toNat_shiftRight, hs', Nat.testBit_shiftRight]
  by_cases h : s ≤ j
  · rw [decide_eq_true h, Bool.true_and, bitAt_eq_testBit _ (by omega),
      show s + (7 - j) = 7 - (j - s) by omega]
  · rw [decide_eq_false h, Bool.false_and, testBit_of_le _ (by omega)]

theorem bitAt_shiftLeft (b : UInt8) {s j : Nat} (h0 : 0 < s) (hs : s < 8) (hj : j < 8) :
    Screen.bitAt (b <<< (8 - UInt8.ofNat s)) j =
      (decide (j < s) && Screen.bitAt b (j + 8 - s)) := by
  have hs' : (8 - UInt8.ofNat s).toNat % 8 = 8 - s := by
    have hle : UInt8.ofNat s ≤ 8 := by
      rw [UInt8.le_iff_toNat_le, UInt8.toNat_ofNat']
      show s % 256 ≤ 8
      omega
    rw [UInt8.toNat_sub_of_le _ _ hle, UInt8.toNat_ofNat']
    show (8 - s % 256) % 8 = 8 - s
    omega
  rw [bitAt_eq_testBit _ hj, UInt8.toNat_shiftLeft, hs', Nat.testBit_mod_two_pow,
    Nat.testBit_shiftLeft, decide_eq_true (show 7 - j < 8 by omega), Bool.true_and]
  by_cases h : j < s
  · rw [decide_eq_true h, decide_eq_true (show 8 - s ≤ 7 - j by omega), Bool.true_and,
      Bool.true_and, bitAt_eq_testBit _ (by omega), show 7 - j - (8 - s) = 7 - (j + 8 - s) by omega]
  · rw [decide_eq_false h, decide_eq_false (show ¬ 8 - s ≤ 7 - j by omega), Bool.false_and,
      Bool.false_and]

end Byte

namespace Word

theorem toNat_ofInt (v : Int) : (UInt16.ofInt v).toNat = (v % 65536).toNat := by
  have h : (v % 65536).toNat < 65536 := by omega
  simp [UInt16.ofInt, Nat.mod_eq_of_lt h]

@[simp] theorem ofInt_toNat (w : UInt16) : UInt16.ofInt w.toNat = w := by
  apply UInt16.toNat_inj.1
  rw [toNat_ofInt]
  have := w.toNat_lt
  omega

theorem ofInt_toNat_add (w : UInt16) (n : Nat) :
    UInt16.ofInt (w.toNat + n) = w + UInt16.ofNat n := by
  apply UInt16.toNat_inj.1
  rw [toNat_ofInt, UInt16.toNat_add, UInt16.toNat_ofNat']
  omega

end Word

end Chip8
