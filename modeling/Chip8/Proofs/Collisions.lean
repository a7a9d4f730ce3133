import Mathlib.Algebra.BigOperators.Group.Finset.Piecewise
import Mathlib.Algebra.BigOperators.Ring.Finset
import Mathlib.Algebra.Order.BigOperators.Group.Finset
import Mathlib.Data.Nat.ModEq
import Mathlib.Tactic.IntervalCases
import Chip8.Proofs.Drawing
import Chip8.Proofs.Failing

/-!
# Collisions

Drawing tells whether a lit pixel went dark. A `Tally` of a drawing counts the bits that were
flipped and those among them that put a pixel out; tallies of single storage bytes add up to that of
the sprite, whatever rows and bytes share their places. Pixel by pixel, and as long as no pixel is
struck twice, the count is that of the pixels that were lit before and are dark afterwards
(`erased_rowsDrawn_iff`).
-/

namespace Chip8

namespace Byte

open Screen (bitAt popCount)

theorem bitAt_and (a b : UInt8) {j : Nat} (hj : j < 8) :
    bitAt (a &&& b) j = (bitAt a j && bitAt b j) := by
  rw [bitAt_eq_testBit _ hj, bitAt_eq_testBit _ hj, bitAt_eq_testBit _ hj, UInt8.toNat_and,
    Nat.testBit_and]

theorem countP_range_eq_sum (p : Nat → Bool) (n : Nat) :
    (List.range n).countP p = ∑ j ∈ Finset.range n, (p j).toNat := by
  induction n with
  | zero => rfl
  | succ n ih =>
    rw [List.range_succ, List.countP_append, ih, Finset.sum_range_succ, List.countP_singleton]
    cases p n <;> rfl

theorem popCount_eq_sum (b : UInt8) :
    popCount b = ∑ j ∈ Finset.range 8, (bitAt b j).toNat :=
  countP_range_eq_sum (bitAt b) 8

/-- A bit that is flipped is lost if it was set and gained otherwise. -/
theorem popCount_xor (a b : UInt8) :
    popCount (a ^^^ b) + 2 * popCount (a &&& b) = popCount a + popCount b := by
  simp only [popCount_eq_sum, Finset.mul_sum, ← Finset.sum_add_distrib]
  refine Finset.sum_congr rfl fun j hj => ?_
  rw [bitAt_xor _ _ (Finset.mem_range.1 hj), bitAt_and _ _ (Finset.mem_range.1 hj)]
  cases bitAt a j <;> cases bitAt b j <;> rfl

theorem popCount_and_le (a b : UInt8) : popCount (a &&& b) ≤ popCount b := by
  rw [popCount_eq_sum, popCount_eq_sum]
  refine Finset.sum_le_sum fun j hj => ?_
  rw [bitAt_and _ _ (Finset.mem_range.1 hj)]
  cases bitAt a j <;> cases bitAt b j <;> decide

theorem popCount_eq_zero_iff {b : UInt8} : popCount b = 0 ↔ b = 0 := by
  constructor
  · intro h
    rw [popCount_eq_sum, Finset.sum_eq_zero_iff] at h
    refine eq_of_bitAt fun j hj => ?_
    rw [Bool.toNat_eq_zero.1 (h j (Finset.mem_range.2 hj)), bitAt_eq_testBit _ hj]
    exact (Nat.zero_testBit _).symm
  · rintro rfl
    rfl

/-- Shifting a byte out of one place and into the next loses no bit. -/
theorem popCount_halves (b : UInt8) {s : Nat} (h0 : 0 < s) (hs : s < 8) :
    popCount (b >>> UInt8.ofNat s) + popCount (b <<< (8 - UInt8.ofNat s)) = popCount b := by
  simp only [popCount_eq_sum]
  have hright : ∑ j ∈ Finset.range 8, (bitAt (b >>> UInt8.ofNat s) j).toNat =
      ∑ j ∈ Finset.range 8, (decide (s ≤ j) && bitAt b (j - s)).toNat :=
    Finset.sum_congr rfl fun j hj => by rw [bitAt_shiftRight b hs (Finset.mem_range.1 hj)]
  have hleft : ∑ j ∈ Finset.range 8, (bitAt (b <<< (8 - UInt8.ofNat s)) j).toNat =
      ∑ j ∈ Finset.range 8, (decide (j < s) && bitAt b (j + 8 - s)).toNat :=
    Finset.sum_congr rfl fun j hj => by rw [bitAt_shiftLeft b h0 hs (Finset.mem_range.1 hj)]
  rw [hright, hleft]
  interval_cases s <;> simp [Finset.sum_range_succ] <;> omega

end Byte

namespace Screen

/-! ## Lit pixels -/

theorem sum_eq_sum_range (l : List UInt8) (f : UInt8 → Nat) :
    (l.map f).sum = ∑ k ∈ Finset.range l.length, f (l.getD k 0) := by
  induction l with
  | nil => rfl
  | cons b l ih =>
    rw [List.map_cons, List.sum_cons, List.length_cons, Finset.sum_range_succ', ih]
    simp only [List.getD_cons_succ, List.getD_cons_zero]
    exact Nat.add_comm _ _

theorem lit_eq_sum (s : Screen) :
    s.lit = ∑ k ∈ Finset.range s.bytes.size, popCount (s.bytes.getD k 0) := by
  have hsum : s.lit = (s.bytes.toList.map popCount).sum := rfl
  rw [hsum, sum_eq_sum_range, Array.length_toList]
  simp only [List.getD_eq_getElem?_getD, Array.getElem?_toList, Array.getD_eq_getD_getElem?]

section

variable {s : Screen} {row col : Nat}

/-- A mask that is flipped lights its bits, except that those lit before go dark. -/
theorem lit_flipped {k : Nat} (mask : UInt8) (hk : k < s.bytes.size) :
    (s.flipped k mask).1.lit + 2 * popCount (s.bytes.getD k 0 &&& mask) =
      s.lit + popCount mask := by
  have hcell (j : Nat) (hj : j ∈ Finset.range s.bytes.size) :
      popCount ((s.flipped k mask).1.bytes.getD j 0) +
        (if k = j then 2 * popCount (s.bytes.getD k 0 &&& mask) else 0) =
      popCount (s.bytes.getD j 0) + if k = j then popCount mask else 0 := by
    rw [getD_flipped mask (Finset.mem_range.1 hj)]
    by_cases h : k = j
    · subst h
      rw [if_pos rfl, if_pos rfl, if_pos rfl]
      exact Byte.popCount_xor _ _
    · rw [if_neg h, if_neg h, if_neg h]
  have hmem : k ∈ Finset.range s.bytes.size := Finset.mem_range.2 hk
  have hsum := Finset.sum_congr rfl hcell
  rw [Finset.sum_add_distrib, Finset.sum_add_distrib, Finset.sum_ite_eq, Finset.sum_ite_eq,
    if_pos hmem, if_pos hmem] at hsum
  rw [lit_eq_sum, lit_eq_sum, size_flipped]
  exact hsum

theorem erased_flipped_iff (s : Screen) (k : Nat) (mask : UInt8) :
    (s.flipped k mask).2 = true ↔ 1 ≤ popCount (s.bytes.getD k 0 &&& mask) := by
  have hflag : (s.flipped k mask).2 = (s.bytes.getD k 0 &&& mask != 0) := rfl
  rw [hflag, bne_iff_ne, ne_eq, ← Byte.popCount_eq_zero_iff]
  omega

/-! ## What drawing adds and takes away -/

/-- Of `bits` pixels that were flipped, `e` were lit before; `erased` says whether there are any. -/
structure Tally (s s' : Screen) (bits e : Nat) (erased : Bool) : Prop where
  lit : s'.lit + 2 * e = s.lit + bits
  le : e ≤ bits
  erased_iff : erased = true ↔ 1 ≤ e

theorem Tally.trans {t u : Screen} {p q d e : Nat} {x y : Bool} (h : Tally s t p d x)
    (h' : Tally t u q e y) : Tally s u (p + q) (d + e) (x || y) where
  lit := by
    have := h.lit
    have := h'.lit
    omega
  le := Nat.add_le_add h.le h'.le
  erased_iff := by
    rw [Bool.or_eq_true, h.erased_iff, h'.erased_iff]
    omega

theorem tally_flipped {k : Nat} (mask : UInt8) (hk : k < s.bytes.size) :
    Tally s (s.flipped k mask).1 (popCount mask) (popCount (s.bytes.getD k 0 &&& mask))
      (s.flipped k mask).2 :=
  ⟨lit_flipped mask hk, Byte.popCount_and_le _ _, s.erased_flipped_iff k mask⟩

theorem exists_tally_byteDrawn (b : UInt8) (hrow : row < s.height)
    (hcol : col < s.width) :
    ∃ e, Tally s (s.byteDrawn row col b).1 (popCount b) e (s.byteDrawn row col b).2 := by
  have hw := s.width_eq
  have hfirst := tally_flipped (b >>> UInt8.ofNat (col % 8))
    (s.index_lt hrow (show col / 8 < s.stride by omega))
  simp only [byteDrawn]
  by_cases h0 : UInt8.ofNat (col % 8) = 0
  · rw [if_pos h0]
    rw [h0, UInt8.shiftRight_zero] at hfirst
    rw [h0, UInt8.shiftRight_zero]
    exact ⟨_, hfirst⟩
  · have hpos : 0 < col % 8 := by
      by_contra hz
      exact h0 (by rw [show col % 8 = 0 by omega]; rfl)
    have hsecond := tally_flipped (s := (s.flipped (row * s.stride + col / 8)
        (b >>> UInt8.ofNat (col % 8))).1) (b <<< (8 - UInt8.ofNat (col % 8)))
      (k := row * s.stride + (col / 8 + 1) % s.stride) (by
        rw [size_flipped]
        exact s.index_lt hrow (Nat.mod_lt _ (by omega)))
    have hboth := hfirst.trans hsecond
    rw [Byte.popCount_halves b hpos (Nat.mod_lt _ (by decide))] at hboth
    rw [if_neg h0]
    exact ⟨_, hboth⟩

/-- The set bits of a sprite's bytes. -/
def bitCount (bs : List UInt8) : Nat :=
  (bs.map popCount).sum

theorem exists_tally_rowsDrawn (row : Nat) (bs : List UInt8)
    (hcol : col < s.width) :
    ∃ e, Tally s (s.rowsDrawn row col bs).1 (bitCount bs) e (s.rowsDrawn row col bs).2 := by
  induction bs generalizing s row with
  | nil => exact ⟨0, rfl, Nat.le_refl 0, by simp [rowsDrawn]⟩
  | cons b bs ih =>
    have hsize := s.size_byteDrawn (row % s.height) col b
    obtain ⟨d, hd⟩ := exists_tally_byteDrawn b (Nat.mod_lt row s.height_pos) hcol
    obtain ⟨e, he⟩ := @ih _ (row + 1) (by rw [hsize.1]; exact hcol)
    exact ⟨d + e, hd.trans he⟩

/-! ## Pixel by pixel -/

theorem sum_range_mul (a b : Nat) (f : Nat → Nat) :
    ∑ k ∈ Finset.range (a * b), f k =
      ∑ i ∈ Finset.range a, ∑ j ∈ Finset.range b, f (i * b + j) := by
  induction a with
  | zero => simp
  | succ a ih => rw [Nat.succ_mul, Finset.sum_range_add, ih, Finset.sum_range_succ]

theorem lit_eq_sum_dot :
    s.lit = ∑ r ∈ Finset.range s.height, ∑ c ∈ Finset.range s.width, (s.dot r c).toNat := by
  have hw : s.width = s.stride * 8 := by rw [s.width_eq, Nat.mul_comm]
  rw [lit_eq_sum, s.size_eq, sum_range_mul, hw]
  refine Finset.sum_congr rfl fun r _ => ?_
  rw [sum_range_mul]
  refine Finset.sum_congr rfl fun q _ => ?_
  rw [Byte.popCount_eq_sum]
  refine Finset.sum_congr rfl fun j hj => ?_
  have hj8 := Finset.mem_range.1 hj
  unfold dot
  rw [show (q * 8 + j) / 8 = q by omega, show (q * 8 + j) % 8 = j by omega]

/-- Every set bit of a byte strikes one pixel. -/
theorem sum_strikes {w h : Nat} (hw : 8 ≤ w) (hh : 0 < h) (b : UInt8) (hcol : col < w) :
    ∑ r ∈ Finset.range h, ∑ c ∈ Finset.range w, (strikes w h row col b r c).toNat =
      popCount b := by
  have hrow : row % h ∈ Finset.range h := Finset.mem_range.2 (Nat.mod_lt row hh)
  rw [Finset.sum_eq_single_of_mem _ hrow fun r _ hr => ?_]
  · have hplace (j : Nat) (hj : j ∈ Finset.range 8) : ahead w col ((col + j) % w) = j :=
      ((add_mod_eq_iff hcol (Nat.mod_lt _ (by omega))
        (by have := Finset.mem_range.1 hj; omega)).1 rfl).symm
    have hstruck (j : Nat) (hj : j ∈ Finset.range 8) :
        (bitAt b j).toNat = (strikes w h row col b (row % h) ((col + j) % w)).toNat := by
      unfold strikes
      rw [hplace j hj, decide_eq_true ⟨rfl, Finset.mem_range.1 hj⟩, Bool.true_and]
    rw [Byte.popCount_eq_sum]
    symm
    refine Finset.sum_of_injOn (fun j => (col + j) % w) ?_ ?_ ?_ hstruck
    · intro j hj k hk heq
      have hat := congrArg (ahead w col) heq
      simp only at hat
      rwa [hplace j hj, hplace k hk] at hat
    · intro j _
      exact Finset.mem_coe.2 (Finset.mem_range.2 (Nat.mod_lt _ (by omega)))
    · intro c hc hout
      have hcw := Finset.mem_range.1 hc
      have hfar : ¬ ahead w col c < 8 := by
        intro hnear
        exact hout ⟨ahead w col c, Finset.mem_coe.2 (Finset.mem_range.2 hnear),
          (add_mod_eq_iff hcol hcw (by omega)).2 rfl⟩
      unfold strikes
      rw [decide_eq_false fun h => hfar h.2]
      rfl
  · refine Finset.sum_eq_zero fun c _ => ?_
    unfold strikes
    rw [decide_eq_false fun h => hr h.1.symm]
    rfl

/-- How often the bytes of a sprite strike a pixel. -/
def struck (s : Screen) (row col : Nat) (bs : List UInt8) (r c : Nat) : Nat :=
  ∑ i ∈ Finset.range bs.length,
    (strikes s.width s.height (row + i) col (bs.getD i 0) r c).toNat

theorem sum_struck (bs : List UInt8) (hcol : col < s.width) :
    ∑ r ∈ Finset.range s.height, ∑ c ∈ Finset.range s.width, s.struck row col bs r c =
      bitCount bs := by
  have hw := s.width_eq
  have hpos := s.width_pos
  unfold struck bitCount
  rw [sum_eq_sum_range]
  simp only [Finset.sum_comm (s := Finset.range s.width) (t := Finset.range bs.length),
    Finset.sum_comm (s := Finset.range s.height) (t := Finset.range bs.length)]
  exact Finset.sum_congr rfl fun i _ => sum_strikes (by omega) s.height_pos _ hcol

/-- No two rows of a sprite fall on the same row of a screen that is as high. -/
theorem struck_le_one {bs : List UInt8} (hlen : bs.length ≤ s.height) (r c : Nat) :
    s.struck row col bs r c ≤ 1 := by
  unfold struck
  by_cases hrow : ∃ i ∈ Finset.range bs.length, (row + i) % s.height = r
  · obtain ⟨i, hi, rfl⟩ := hrow
    rw [Finset.sum_eq_single_of_mem i hi fun j hj hne => ?_]
    · exact Bool.toNat_le _
    · have hi' := Finset.mem_range.1 hi
      have hj' := Finset.mem_range.1 hj
      have hapart : ¬ (row + j) % s.height = (row + i) % s.height := fun heq =>
        hne (Nat.ModEq.eq_of_lt_of_lt (Nat.ModEq.add_left_cancel' row heq)
          (by omega) (by omega))
      unfold strikes
      rw [decide_eq_false fun h => hapart h.1]
      rfl
  · rw [Finset.sum_eq_zero fun i hi => ?_]
    · exact Nat.zero_le 1
    · unfold strikes
      rw [decide_eq_false fun h => hrow ⟨i, hi, h.1⟩]
      rfl

/-- Where a pixel is struck at most once, it is lost if it was lit and gained otherwise. -/
theorem toNat_xor_odd {n : Nat} (hn : n ≤ 1) (x : Bool) :
    (x ^^ decide (Odd n)).toNat + 2 * (x && !(x ^^ decide (Odd n))).toNat = x.toNat + n := by
  obtain rfl | rfl : n = 0 ∨ n = 1 := by omega
  · cases x <;> rfl
  · rw [decide_eq_true odd_one]
    cases x <;> rfl

/-- If no two rows of a sprite share a row of the screen, a lit pixel goes dark exactly if one that
was lit is dark in the end. -/
theorem erased_rowsDrawn_iff (row : Nat) {bs : List UInt8}
    (hcol : col < s.width) (hlen : bs.length ≤ s.height) :
    (s.rowsDrawn row col bs).2 = true ↔ ∃ r < s.height, ∃ c < s.width,
      s.dot r c = true ∧ (s.rowsDrawn row col bs).1.dot r c = false := by
  obtain ⟨e, he⟩ := exists_tally_rowsDrawn row bs hcol
  have hsize := s.size_rowsDrawn row col bs
  have hdot (r : Nat) (hr : r ∈ Finset.range s.height) (c : Nat)
      (hc : c ∈ Finset.range s.width) :
      ((s.rowsDrawn row col bs).1.dot r c).toNat +
        2 * (s.dot r c && !(s.rowsDrawn row col bs).1.dot r c).toNat =
      (s.dot r c).toNat + s.struck row col bs r c := by
    rw [dot_rowsDrawn bs hcol (Finset.mem_range.1 hr) (Finset.mem_range.1 hc)]
    exact toNat_xor_odd (struck_le_one hlen r c) _
  -- summed over the screen, this is the tally again
  have hsum := Finset.sum_congr rfl fun r hr => Finset.sum_congr rfl (hdot r hr)
  simp only [Finset.sum_add_distrib, ← Finset.mul_sum, sum_struck bs hcol,
    ← lit_eq_sum_dot] at hsum
  have hlit := lit_eq_sum_dot (s := (s.rowsDrawn row col bs).1)
  rw [hsize.1, hsize.2.1] at hlit
  rw [← hlit] at hsum
  have hlost : e = ∑ r ∈ Finset.range s.height, ∑ c ∈ Finset.range s.width,
      (s.dot r c && !(s.rowsDrawn row col bs).1.dot r c).toNat := by
    have := he.lit
    omega
  rw [he.erased_iff, hlost, Nat.one_le_iff_ne_zero, ne_eq, Finset.sum_eq_zero_iff]
  simp only [Finset.sum_eq_zero_iff, Finset.mem_range, Bool.toNat_eq_zero, Bool.and_eq_false_iff,
    Bool.not_eq_false', not_forall, not_or, Bool.not_eq_false, Bool.not_eq_true, exists_prop]

end

/-! ## Whole sprites -/

/-- The right answer to a drawing of `sprite` that turned `s` into `s'`. It is no if every set bit
has lit a pixel, and yes if some have put one out. -/
structure Answers (s s' : Screen) (sprite : List Int) (erased : Bool) : Prop where
  kept_iff : erased = false ↔ s'.lit = s.lit + bitCount (sprite.map UInt8.ofInt)
  lost : erased = true → ∃ e, 1 ≤ e ∧ e ≤ bitCount (sprite.map UInt8.ofInt) ∧
    (s'.lit : Int) = s.lit + bitCount (sprite.map UInt8.ofInt) - 2 * e
  dark_iff : sprite.length ≤ s.height →
    (erased = true ↔ ∃ r c, s.pixel r c = true ∧ s'.pixel r c = false)

variable {s : Screen}

theorem exists_pixel_iff {p : Int → Int → Prop} :
    (∃ r c, p (r % s.height) (c % s.width)) ↔
      ∃ r < s.height, ∃ c < s.width, p (r : Nat) (c : Nat) := by
  have hw : (0 : Int) < s.width := Int.natCast_pos.2 s.width_pos
  have hh : (0 : Int) < s.height := Int.natCast_pos.2 s.height_pos
  constructor
  · rintro ⟨r, c, h⟩
    refine ⟨(r % s.height).toNat, toNat_emod_lt s.height_pos r, (c % s.width).toNat,
      toNat_emod_lt s.width_pos c, ?_⟩
    rwa [Int.toNat_of_nonneg (Int.emod_nonneg r hh.ne'),
      Int.toNat_of_nonneg (Int.emod_nonneg c hw.ne')]
  · rintro ⟨r, hr, c, hc, h⟩
    refine ⟨r, c, ?_⟩
    rwa [Int.emod_eq_of_lt (by omega) (by omega), Int.emod_eq_of_lt (by omega) (by omega)]

theorem exists_draw (row col : Int) {sprite : List Int}
    (hlen : sprite.length ≤ 15) :
    ∃ s' erased, s.draw row col sprite = .ok (s', erased) ∧ Answers s s' sprite erased := by
  have hcol := toNat_emod_lt s.width_pos col
  obtain ⟨e, he⟩ := exists_tally_rowsDrawn (row % s.height).toNat
    (sprite.map UInt8.ofInt) hcol
  have hsize := s.size_rowsDrawn (row % s.height).toNat (col % s.width).toNat
    (sprite.map UInt8.ofInt)
  have hdark (hfits : sprite.length ≤ s.height) :=
    erased_rowsDrawn_iff (row % s.height).toNat hcol
      (show (sprite.map UInt8.ofInt).length ≤ s.height by rw [List.length_map]; exact hfits)
  have hdraw := s.draw_eq row col hlen
  generalize s.rowsDrawn (row % s.height).toNat (col % s.width).toNat (sprite.map UInt8.ofInt) =
    after at he hsize hdark hdraw
  refine ⟨after.1, after.2, hdraw, ?_, fun herased => ?_, fun hfits => ?_⟩
  · have hlit := he.lit
    rw [← Bool.not_eq_true, he.erased_iff]
    omega
  · have hlit := he.lit
    exact ⟨e, he.erased_iff.1 herased, he.le, by omega⟩
  · rw [hdark hfits]
    have hpixel (r c : Int) : after.1.pixel r c =
        after.1.dot (r % s.height).toNat (c % s.width).toNat := by
      rw [pixel_eq_dot, hsize.1, hsize.2.1]
    simp only [pixel_eq_dot s, hpixel]
    exact (exists_pixel_iff (p := fun r c => s.dot r.toNat c.toNat = true ∧
      after.1.dot r.toNat c.toNat = false)).symm

end Screen

/-! ## The instruction -/

namespace Machine

/-- Drawing tells exactly whether a lit pixel went dark. The answer is no if and only if every set
bit of the sprite has lit a pixel; if it is yes, between one and all of the bits have put one out
instead. Unless the sprite is higher than the screen, so that its rows meet each other, the answer
compares the pictures before and after. The instruction puts this answer for its operands, as they
were, into the flag, also where the flag is one of them. -/
theorem collision_flag_exact (m : Machine) :
    (∀ (row col : Int) (sprite : List Int), sprite.length ≤ 15 → ∃ s erased,
      m.screen.draw row col sprite = .ok (s, erased) ∧
      Screen.Answers m.screen s sprite erased) ∧
    ∀ x y n : Fin 16, n.val = 0 ∨ m.registers.i.toNat + n.val ≤ m.memory.size →
      ∃ s erased, m.screen.draw (m.registers.v.get y).toNat (m.registers.v.get x).toNat
          (m.rowsAtIndex n.val) = .ok (s, erased) ∧
        Screen.Answers m.screen s (m.rowsAtIndex n.val) erased ∧
        execute (.draw x.val y.val n.val) m = .ok () { m with
          screen := s
          registers := m.registers.set 15 (if erased then 1 else 0) } := by
  refine ⟨fun row col sprite hlen => Screen.exists_draw row col hlen, fun x y n hroom => ?_⟩
  have hlen : (m.rowsAtIndex n.val).length ≤ 15 := by
    unfold rowsAtIndex Memory.run
    rw [List.length_map, List.length_map, List.length_range']
    omega
  obtain ⟨s, erased, hd, hanswers⟩ := Screen.exists_draw (m.registers.v.get y).toNat
    (m.registers.v.get x).toNat hlen
  refine ⟨s, erased, hd, hanswers, ?_⟩
  rw [execute_draw_fin hroom hd]
  cases erased <;> rfl

/-- One pixel is lit, and a byte in memory falls on it and beside it. -/
def touching : Machine :=
  { narrow with
    memory := ⟨#[0xC0]⟩
    screen := .low
    registers := Registers.cleared.set 15 5 }

/-- Place and answer share the flag register. On the blank screen no pixel was lit before, but the
third row of the sprite puts out what the first has lit. -/
theorem collision_flag_exact_touching :
    (∃ s, execute (.draw 15 15 1) touching = .ok () { touching with
        screen := s
        registers := touching.registers.set 15 1 } ∧
      s.lit = touching.screen.lit) ∧
    ∃ s, ∃ e : Nat, narrow.screen.draw (-1) 5 [0x81, 0x100, 0x80] = .ok (s, true) ∧
      1 ≤ e ∧ (s.lit : Int) = narrow.screen.lit + 3 - 2 * e := by
  constructor
  · obtain ⟨s, erased, hd, -, hx⟩ :=
      (collision_flag_exact touching).2 15 15 1 (.inr (by decide))
    have hdraw : touching.screen.draw 5 5 [0xC0] = .ok (.mk 8 2 #[0, 2], true) := rfl
    obtain ⟨rfl, rfl⟩ := Prod.mk.inj (Except.ok.inj (hd.symm.trans hdraw))
    exact ⟨_, hx, rfl⟩
  · obtain ⟨s, erased, hd, hanswers⟩ :=
      (collision_flag_exact narrow).1 (-1) 5 [0x81, 0x100, 0x80] (by decide)
    have hdraw : narrow.screen.draw (-1) 5 [0x81, 0x100, 0x80] =
        .ok (.mk 8 2 #[0, 8], true) := rfl
    obtain ⟨rfl, rfl⟩ := Prod.mk.inj (Except.ok.inj (hd.symm.trans hdraw))
    obtain ⟨e, he, -, hlit⟩ := hanswers.lost rfl
    exact ⟨_, e, hdraw, he, hlit⟩

end Machine

end Chip8
