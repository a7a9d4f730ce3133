import Mathlib.Algebra.BigOperators.Group.Finset.Piecewise
import Mathlib.Algebra.BigOperators.Group.Finset.Sigma
import Mathlib.Algebra.Ring.Parity
import Chip8.Proofs.Action
import Chip8.Proofs.Bytes
import Chip8.Proofs.InRange

/-!
# Drawing pixel by pixel

A sprite byte flips the pixels that `strikes` names, whether it falls on one storage byte or is
split between two, which on the narrowest screen are one and the same. Rows of a sprite add up
(`dot_rowsDrawn`), so that a pixel changes if an odd number of sprite bits fall on it. `covering`
is the set of these bits.
-/

namespace Chip8

namespace Screen

/-- The pixel of a row and a column of the screen. -/
def dot (s : Screen) (r c : Nat) : Bool :=
  bitAt (s.bytes.getD (r * s.stride + c / 8) 0) (c % 8)

theorem pixel_eq_dot (s : Screen) (row col : Int) :
    s.pixel row col = s.dot (row % s.height).toNat (col % s.width).toNat := rfl

section

variable {s : Screen} {row col r c : Nat}

/-! ## Storage bytes -/

/-- A place in a row is told by its row and its place. -/
theorem index_inj {n q q' : Nat} (hq : q < n) (hq' : q' < n) :
    row * n + q = r * n + q' ↔ row = r ∧ q = q' := by
  have hn : 0 < n := by omega
  constructor
  · intro h
    have hd := congrArg (· / n) h
    have hm := congrArg (· % n) h
    simp only [Nat.mul_comm _ n, Nat.mul_add_div hn, Nat.mul_add_mod, Nat.div_eq_of_lt hq,
      Nat.div_eq_of_lt hq', Nat.mod_eq_of_lt hq, Nat.mod_eq_of_lt hq'] at hd hm
    exact ⟨by omega, hm⟩
  · rintro ⟨rfl, rfl⟩
    rfl

theorem getD_flipped {k j : Nat} (mask : UInt8) (hj : j < s.bytes.size) :
    (s.flipped k mask).1.bytes.getD j 0 =
      if k = j then s.bytes.getD j 0 ^^^ mask else s.bytes.getD j 0 := by
  simp only [flipped, Array.getD_eq_getD_getElem?, Array.getElem?_modify,
    Array.getElem?_eq_getElem hj]
  split <;> rfl

theorem dot_flipped {k : Nat} {mask : UInt8} (h : r * s.stride + c / 8 < s.bytes.size) :
    (s.flipped k mask).1.dot r c =
      (s.dot r c ^^ (decide (k = r * s.stride + c / 8) && bitAt mask (c % 8))) := by
  show bitAt ((s.flipped k mask).1.bytes.getD (r * s.stride + c / 8) 0) (c % 8) = _
  rw [getD_flipped mask h]
  by_cases hk : k = r * s.stride + c / 8
  · rw [if_pos hk, decide_eq_true hk, Bool.true_and, Byte.bitAt_xor _ _ (Nat.mod_lt _ (by decide))]
    rfl
  · rw [if_neg hk, decide_eq_false hk, Bool.false_and, Bool.xor_false]
    rfl

/-! ## One byte of a sprite -/

/-- How far `c` lies to the right of `col` on a line of `w` pixels that closes up. -/
def ahead (w col c : Nat) : Nat :=
  if col ≤ c then c - col else c + w - col

/-- A byte drawn at a row and a column flips the pixel in row `r` and column `c`. -/
def strikes (w h row col : Nat) (b : UInt8) (r c : Nat) : Bool :=
  decide (row % h = r ∧ ahead w col c < 8) && bitAt b (ahead w col c)

theorem add_mod_eq_iff {w j : Nat} (hcol : col < w) (hc : c < w) (hj : j < w) :
    (col + j) % w = c ↔ j = ahead w col c := by
  have hmod : (col + j) % w = if col + j < w then col + j else col + j - w := by
    by_cases h : col + j < w
    · rw [if_pos h, Nat.mod_eq_of_lt h]
    · rw [if_neg h, Nat.mod_eq_sub_mod (by omega), Nat.mod_eq_of_lt (by omega)]
  rw [hmod]
  unfold ahead
  split <;> split <;> omega

/-- The two storage bytes that a sprite byte falls on take up its pixels between them. -/
theorem bitAt_halves {w n : Nat} (hw : w = 8 * n) (b : UInt8) (hcol : col < w) (hc : c < w) :
    ((decide (col / 8 = c / 8) && bitAt (b >>> UInt8.ofNat (col % 8)) (c % 8)) ^^
      (decide (col % 8 ≠ 0 ∧ (col / 8 + 1) % n = c / 8) &&
        bitAt (b <<< (8 - UInt8.ofNat (col % 8))) (c % 8))) =
      (decide (ahead w col c < 8) && bitAt b (ahead w col c)) := by
  have hs : col % 8 < 8 := Nat.mod_lt _ (by decide)
  have hj : c % 8 < 8 := Nat.mod_lt _ (by decide)
  have hnext : (col / 8 + 1) % n = if col / 8 + 1 = n then 0 else col / 8 + 1 := by
    by_cases h : col / 8 + 1 = n
    · rw [if_pos h, h, Nat.mod_self]
    · rw [if_neg h, Nat.mod_eq_of_lt (by omega)]
  have hsecond : (decide (col % 8 ≠ 0 ∧ (col / 8 + 1) % n = c / 8) &&
      bitAt (b <<< (8 - UInt8.ofNat (col % 8))) (c % 8)) =
      (decide ((col / 8 + 1) % n = c / 8 ∧ c % 8 < col % 8) &&
        bitAt b (c % 8 + 8 - col % 8)) := by
    by_cases h0 : col % 8 = 0
    · rw [decide_eq_false (by omega), decide_eq_false (by omega), Bool.false_and, Bool.false_and]
    · rw [Byte.bitAt_shiftLeft b (by omega) hs hj, ← Bool.and_assoc, ← Bool.decide_and]
      simp only [ne_eq, h0, not_false_eq_true, true_and]
  rw [hsecond, Byte.bitAt_shiftRight b hs hj, ← Bool.and_assoc, ← Bool.decide_and, hnext]
  by_cases hfirst : col / 8 = c / 8 ∧ col % 8 ≤ c % 8
  · have ha : ahead w col c = c % 8 - col % 8 := by
      unfold ahead; rw [if_pos (by omega)]; omega
    rw [decide_eq_true hfirst, decide_eq_false (by omega), ha, decide_eq_true (by omega),
      Bool.false_and, Bool.xor_false]
  · rw [decide_eq_false hfirst, Bool.false_and, Bool.false_xor]
    by_cases hlast : (if col / 8 + 1 = n then 0 else col / 8 + 1) = c / 8 ∧ c % 8 < col % 8
    · have ha : ahead w col c = c % 8 + 8 - col % 8 := by
        unfold ahead; split <;> split at hlast <;> omega
      rw [decide_eq_true hlast, ha, decide_eq_true (by omega)]
    · have ha : ¬ ahead w col c < 8 := by
        unfold ahead; split <;> split at hlast <;> omega
      rw [decide_eq_false hlast, decide_eq_false ha, Bool.false_and, Bool.false_and]

theorem dot_byteDrawn (b : UInt8) (hcol : col < s.width) (hr : r < s.height)
    (hc : c < s.width) :
    (s.byteDrawn (row % s.height) col b).1.dot r c =
      (s.dot r c ^^ strikes s.width s.height row col b r c) := by
  have hw := s.width_eq
  have hqc : c / 8 < s.stride := by omega
  have hcell : r * s.stride + c / 8 < s.bytes.size := s.index_lt hr hqc
  -- a flip in row `row` reaches the pixel if it is in its row and its storage byte
  have hflip (t : Screen) (ht : t.stride = s.stride) (hsize : t.bytes.size = s.bytes.size)
      {q : Nat} (hq : q < s.stride) (mask : UInt8) :
      (t.flipped (row % s.height * s.stride + q) mask).1.dot r c =
        (t.dot r c ^^
          (decide (row % s.height = r) && (decide (q = c / 8) && bitAt mask (c % 8)))) := by
    rw [dot_flipped (by rw [ht, hsize]; exact hcell), ht, decide_eq_decide.2 (index_inj hq hqc),
      Bool.decide_and, Bool.and_assoc]
  have hfirst := hflip s rfl rfl (show col / 8 < s.stride by omega)
    (b >>> UInt8.ofNat (col % 8))
  have hsecond := hflip (s.flipped (row % s.height * s.stride + col / 8)
    (b >>> UInt8.ofNat (col % 8))).1 rfl (size_flipped _ _ _)
    (Nat.mod_lt (col / 8 + 1) (show 0 < s.stride by omega)) (b <<< (8 - UInt8.ofNat (col % 8)))
  unfold strikes
  rw [Bool.decide_and, Bool.and_assoc, ← bitAt_halves hw b hcol hc]
  simp only [byteDrawn]
  by_cases h0 : col % 8 = 0
  · have hz : UInt8.ofNat (col % 8) = 0 := by rw [h0]; rfl
    rw [if_pos hz, hfirst]
    simp only [h0, ne_eq, not_true_eq_false, false_and, decide_false, Bool.false_and,
      Bool.xor_false]
  · have hz : UInt8.ofNat (col % 8) ≠ 0 := by
      intro h
      have h8 := congrArg UInt8.toNat h
      rw [UInt8.toNat_ofNat'] at h8
      exact h0 (by change col % 8 % 256 = 0 at h8; omega)
    simp only [if_neg hz, stride_flipped]
    rw [hsecond, hfirst]
    simp only [h0, ne_eq, not_false_eq_true, true_and]
    cases decide (row % s.height = r) <;> simp

/-! ## A whole sprite -/

theorem dot_rowsDrawn (bs : List UInt8) (hcol : col < s.width)
    (hr : r < s.height) (hc : c < s.width) :
    (s.rowsDrawn row col bs).1.dot r c =
      (s.dot r c ^^ decide (Odd (∑ i ∈ Finset.range bs.length,
        (strikes s.width s.height (row + i) col (bs.getD i 0) r c).toNat))) := by
  induction bs generalizing s row with
  | nil => simp [rowsDrawn]
  | cons b bs ih =>
    obtain ⟨hw, hh, -⟩ := s.size_byteDrawn (row % s.height) col b
    have hrest := @ih _ (row + 1) (by rw [hw]; exact hcol) (by rw [hh]; exact hr)
      (by rw [hw]; exact hc)
    rw [hw, hh, dot_byteDrawn b hcol hr hc] at hrest
    have hodd (n : Nat) (x : Bool) :
        decide (Odd (n + x.toNat)) = (x ^^ decide (Odd n)) := by
      cases x with
      | false => rw [Bool.toNat_false, Nat.add_zero, Bool.false_xor]
      | true => rw [Bool.toNat_true, decide_eq_decide.2 Nat.odd_add_one, decide_not, Bool.true_xor]
    simp only [Nat.add_right_comm row 1] at hrest
    rw [rowsDrawn, List.length_cons, Finset.sum_range_succ', hodd]
    simp only [List.getD_cons_succ, List.getD_cons_zero, Nat.add_zero,
      ← Bool.xor_assoc]
    exact hrest

/-! ## Bits that fall on a pixel -/

/-- The set bits of a sprite, by row and by distance from the left, that fall on a pixel. -/
def covering (s : Screen) (row col : Int) (sprite : List Int) (r c : Int) : Finset (Nat × Nat) :=
  {p ∈ Finset.range sprite.length ×ˢ Finset.range 8 |
    (sprite.getD p.1 0 % 256).toNat.testBit (7 - p.2) = true ∧
      (row + p.1) % s.height = r % s.height ∧ (col + p.2) % s.width = c % s.width}

theorem bitAt_ofInt (v : Int) {j : Nat} (hj : j < 8) :
    bitAt (UInt8.ofInt v) j = (v % 256).toNat.testBit (7 - j) := by
  rw [Byte.bitAt_eq_testBit _ hj, Byte.toNat_ofInt]

/-- Of the bits of one sprite byte at most one falls on the pixel. -/
theorem sum_covering (row col v r c : Int) (i : Nat) :
    (∑ j ∈ Finset.range 8, if (v % 256).toNat.testBit (7 - j) = true ∧
        (row + i) % s.height = r % s.height ∧ (col + j) % s.width = c % s.width then 1 else 0) =
      (strikes s.width s.height ((row % s.height).toNat + i) (col % s.width).toNat
        (UInt8.ofInt v) (r % s.height).toNat (c % s.width).toNat).toNat := by
  have hcol := toNat_emod_lt s.width_pos col
  have hc := toNat_emod_lt s.width_pos c
  have hwide := s.width_eq
  have hpos := s.width_pos
  set k := ahead s.width (col % s.width).toNat (c % s.width).toNat with hk
  have hbit (j : Nat) (hj : j ∈ Finset.range 8) :
      ((v % 256).toNat.testBit (7 - j) = true ∧ (row + i) % s.height = r % s.height ∧
        (col + j) % s.width = c % s.width) ↔
      j = k ∧ bitAt (UInt8.ofInt v) k = true ∧
        ((row % s.height).toNat + i) % s.height = (r % s.height).toNat := by
    have hj8 : j < 8 := Finset.mem_range.1 hj
    have hplace : (col + j) % s.width = c % s.width ↔ j = k := by
      rw [← toNat_emod_add s.width_pos, add_mod_eq_iff hcol hc (by omega)]
    rw [← toNat_emod_add s.height_pos, hplace]
    constructor
    · rintro ⟨hb, hr, rfl⟩
      exact ⟨rfl, by rw [bitAt_ofInt v hj8]; exact hb, hr⟩
    · rintro ⟨rfl, hb, hr⟩
      exact ⟨by rw [← bitAt_ofInt v hj8]; exact hb, hr, rfl⟩
  calc _ = ∑ j ∈ Finset.range 8, if j = k then
        (if bitAt (UInt8.ofInt v) k = true ∧
          ((row % s.height).toNat + i) % s.height = (r % s.height).toNat then 1 else 0) else 0 := by
        refine Finset.sum_congr rfl fun j hj => ?_
        rw [← ite_and]
        exact if_congr (hbit j hj) rfl rfl
    _ = _ := by
        rw [Finset.sum_ite_eq']
        unfold strikes
        rw [← hk]
        by_cases h8 : k < 8
        · rw [if_pos (Finset.mem_range.2 h8)]
          by_cases hr : ((row % s.height).toNat + i) % s.height = (r % s.height).toNat
          · cases bitAt (UInt8.ofInt v) k <;> simp [h8, hr]
          · simp [hr]
        · simp [h8]

theorem card_covering (row col : Int) (sprite : List Int) (r c : Int) :
    (s.covering row col sprite r c).card =
      ∑ i ∈ Finset.range (sprite.map UInt8.ofInt).length,
        (strikes s.width s.height ((row % s.height).toNat + i) (col % s.width).toNat
          ((sprite.map UInt8.ofInt).getD i 0) (r % s.height).toNat (c % s.width).toNat).toNat := by
  unfold covering
  rw [Finset.card_filter, Finset.sum_product, List.length_map]
  refine Finset.sum_congr rfl fun i _ => ?_
  rw [Byte.getD_map_ofInt, ← sum_covering]

theorem pixel_draw {s' : Screen} {erased : Bool} {row col : Int}
    {sprite : List Int} (h : s.draw row col sprite = .ok (s', erased)) (r c : Int) :
    s'.pixel r c =
      (s.pixel r c ^^ decide (Odd (s.covering row col sprite r c).card)) := by
  obtain ⟨hw, hh, -⟩ := size_draw h
  rw [pixel_eq_dot, pixel_eq_dot, hw, hh, card_covering, eq_rowsDrawn_of_draw h]
  exact dot_rowsDrawn _ (toNat_emod_lt s.width_pos col) (toNat_emod_lt s.height_pos r)
    (toNat_emod_lt s.width_pos c)

end

/-- A screen of two rows with one lit pixel. -/
def low : Screen :=
  .mk 8 2 #[0, 4]

end Screen

namespace Machine

/-- Drawing changes nothing but pixels: each turns over once for every bit of the sprite that
falls on it, wherever the sprite lies and however small the screen. More than fifteen rows are
refused, and then nothing changes. -/
theorem draw_turns_covered_pixels (m : Machine) (row col : Int) (sprite : List Int) :
    (sprite.length ≤ 15 → ∃ s erased,
      draw row col sprite m = .ok erased { m with screen := s } ∧
      s.width = m.screen.width ∧ s.height = m.screen.height ∧
      s.bytes.size = m.screen.bytes.size ∧
      ∀ r c, s.pixel r c =
        (m.screen.pixel r c ^^ decide (Odd (m.screen.covering row col sprite r c).card))) ∧
    (15 < sprite.length →
      draw row col sprite m = .error (.misuse (.spriteTooTall sprite.length)) m) := by
  unfold draw
  constructor
  · intro hlen
    have hd := m.screen.draw_eq row col hlen
    obtain ⟨hw, hh, hsize⟩ := Screen.size_draw hd
    rw [hd]
    exact ⟨_, _, rfl, hw, hh, hsize, Screen.pixel_draw hd⟩
  · intro hlen
    rw [m.screen.draw_of_too_tall row col hlen]

/-- A machine with a screen of two rows of one storage byte each. -/
def narrow : Machine :=
  unbooted {} (.zeros 4096) (.empty 16) Screen.low.clear

/-- The third row of the sprite lands on its first, and turns one pixel back. -/
theorem draw_turns_covered_pixels_narrow : ∃ s erased,
    draw (-1) 5 [0x81, 0x100, 0x80] narrow = .ok erased { narrow with screen := s } ∧
      s.pixel 1 4 = true ∧ s.pixel 1 5 = false := by
  obtain ⟨s, erased, hd, -, -, -, hp⟩ :=
    (draw_turns_covered_pixels narrow (-1) 5 [0x81, 0x100, 0x80]).1 (by decide)
  exact ⟨s, erased, hd, (hp 1 4).trans (by decide), (hp 1 5).trans (by decide)⟩

end Machine

end Chip8
