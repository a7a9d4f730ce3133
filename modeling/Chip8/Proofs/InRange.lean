import Chip8.Screen

/-!
# Drawing in range

Drawing checks every access: lines and bytes have to be there, and a remainder is not taken by 0.
No check fails on a screen, whatever is drawn where. Lines and bytes are taken modulo their number,
which the shape of the screen keeps from being 0, and it has all the bytes that can be named this
way. So drawing comes to a total function, and only the height of a sprite can be refused
(`draw_eq`).
-/

namespace Chip8.Screen

variable {s : Screen} {row col r q : Nat}

/-! ## Drawing without checks -/

/-- A mask on one storage byte, and whether a lit pixel goes dark. -/
def flipped (s : Screen) (k : Nat) (mask : UInt8) : Screen × Bool :=
  ({ s with
    bytes := s.bytes.modify k (· ^^^ mask)
    size_bytes := Array.size_modify.trans s.size_bytes }, s.bytes.getD k 0 &&& mask != 0)

/-- One sprite byte in a row. -/
def byteDrawn (s : Screen) (row col : Nat) (b : UInt8) : Screen × Bool :=
  let index := col / 8
  let shift := UInt8.ofNat (col % 8)
  let (s, erased) := s.flipped (row * s.stride + index) (b >>> shift)
  if shift = 0 then (s, erased)
  else
    let (s, erased') := s.flipped (row * s.stride + (index + 1) % s.stride) (b <<< (8 - shift))
    (s, erased || erased')

/-- Sprite bytes in consecutive rows. -/
def rowsDrawn (s : Screen) (row col : Nat) : List UInt8 → Screen × Bool
  | [] => (s, false)
  | b :: bs =>
    let (s, erased) := s.byteDrawn (row % s.height) col b
    let (s, erased') := s.rowsDrawn (row + 1) col bs
    (s, erased || erased')

/-! ## Sizes -/

@[simp] theorem width_flipped (s : Screen) (k : Nat) (m : UInt8) :
    (s.flipped k m).1.width = s.width := rfl

@[simp] theorem height_flipped (s : Screen) (k : Nat) (m : UInt8) :
    (s.flipped k m).1.height = s.height := rfl

theorem stride_flipped (s : Screen) (k : Nat) (m : UInt8) :
    (s.flipped k m).1.stride = s.stride := rfl

@[simp] theorem size_flipped (s : Screen) (k : Nat) (m : UInt8) :
    (s.flipped k m).1.bytes.size = s.bytes.size := by
  simp [flipped]

theorem size_byteDrawn (s : Screen) (row col : Nat) (b : UInt8) :
    (s.byteDrawn row col b).1.width = s.width ∧ (s.byteDrawn row col b).1.height = s.height ∧
      (s.byteDrawn row col b).1.bytes.size = s.bytes.size := by
  simp only [byteDrawn]; split <;> simp

theorem size_rowsDrawn (s : Screen) (row col : Nat) (bs : List UInt8) :
    (s.rowsDrawn row col bs).1.width = s.width ∧ (s.rowsDrawn row col bs).1.height = s.height ∧
      (s.rowsDrawn row col bs).1.bytes.size = s.bytes.size := by
  induction bs generalizing s row with
  | nil => exact ⟨rfl, rfl, rfl⟩
  | cons b bs ih =>
    obtain ⟨hw, hh, hs⟩ := s.size_byteDrawn (row % s.height) col b
    obtain ⟨hw', hh', hs'⟩ := ih (s.byteDrawn (row % s.height) col b).1 (row + 1)
    exact ⟨hw'.trans hw, hh'.trans hh, hs'.trans hs⟩

/-! ## Coordinates -/

theorem toNat_emod_lt {n : Nat} (hn : 0 < n) (a : Int) : (a % n).toNat < n := by
  have hlt := Int.emod_lt_of_pos a (Int.natCast_pos.2 hn)
  omega

/-- A remainder may be taken before a natural number is added. -/
theorem toNat_emod_add {n : Nat} (hn : 0 < n) (a b : Int) (i : Nat) :
    ((a % n).toNat + i) % n = (b % n).toNat ↔ (a + i) % n = b % n := by
  have hpos : (0 : Int) < n := Int.natCast_pos.2 hn
  have ha := Int.toNat_of_nonneg (Int.emod_nonneg a (Int.ne_of_gt hpos))
  have hb := Int.toNat_of_nonneg (Int.emod_nonneg b (Int.ne_of_gt hpos))
  rw [← Int.natCast_inj, Int.natCast_emod, Int.natCast_add, ha, hb, Int.emod_add_emod]

theorem wrap_of_pos {side : Nat} (h : 0 < side) (k : Int) :
    wrap k side = .ok (k % side).toNat :=
  if_neg (Nat.ne_of_gt h)

/-! ## Every access is in range -/

theorem flip_eq (hr : r < s.height) (hq : q < s.stride) (mask : UInt8) :
    s.flip r q mask = .ok (s.flipped (r * s.stride + q) mask) := by
  have hk := s.index_lt hr hq
  have hbytes : s.bytes.set (r * s.stride + q) (s.bytes[r * s.stride + q] ^^^ mask) =
      s.bytes.modify (r * s.stride + q) (· ^^^ mask) := by
    refine Array.ext_getElem? fun k => ?_
    rw [Array.getElem?_set, Array.getElem?_modify]
    split
    · rename_i heq
      rw [← heq, Array.getElem?_eq_getElem hk]
      rfl
    · rfl
  unfold flip flipped
  simp only [dif_pos hr, dif_pos hq, hbytes, Array.getD_eq_getD_getElem?,
    Array.getElem?_eq_getElem hk, Option.getD_some]

/-- The second storage byte wraps to the start of its row. -/
theorem drawByte_eq (hr : r < s.height) (hcol : col < s.width) (b : UInt8) :
    s.drawByte r col b = .ok (s.byteDrawn r col b) := by
  have hfirst : col / 8 < s.stride := by
    have := s.width_eq
    omega
  have hnext : wrap (col / 8 + 1 : Nat) s.stride = .ok ((col / 8 + 1) % s.stride) := by
    rw [wrap_of_pos s.stride_pos, ← Int.natCast_emod, Int.toNat_natCast]
  unfold drawByte byteDrawn
  simp only [flip_eq hr hfirst, bind, Except.bind, pure, Except.pure]
  split
  · rfl
  · have hsecond := flip_eq (s := (s.flipped (r * s.stride + col / 8)
      (b >>> UInt8.ofNat (col % 8))).1) hr (Nat.mod_lt (col / 8 + 1) s.stride_pos)
      (b <<< (8 - UInt8.ofNat (col % 8)))
    simp only [stride_flipped] at hsecond ⊢
    simp only [hnext, hsecond]

/-- Rows may be counted from any number that stands for the first. -/
theorem drawRows_eq {top : Int} (htop : (top % s.height).toNat = row % s.height)
    (hcol : col < s.width) (bs : List UInt8) :
    s.drawRows top col bs = .ok (s.rowsDrawn row col bs) := by
  induction bs generalizing s top row with
  | nil => rfl
  | cons b bs ih =>
    obtain ⟨hw, hh, -⟩ := s.size_byteDrawn (row % s.height) col b
    have hbyte := drawByte_eq (Nat.mod_lt row s.height_pos) hcol b
    have hnext : ((top + 1) % s.height).toNat = (row + 1) % s.height := by
      rw [← Nat.mod_add_mod, ← htop]
      exact ((toNat_emod_add s.height_pos top (top + 1) 1).2 rfl).symm
    have hrest := @ih (s.byteDrawn (row % s.height) col b).1 (row + 1) (top + 1)
      (by rw [hh]; exact hnext) (by rw [hw]; exact hcol)
    unfold drawRows rowsDrawn
    simp only [wrap_of_pos s.height_pos, htop, hbyte, hrest, bind, Except.bind, pure, Except.pure]

/-- A sprite that is not too tall is drawn: nothing on the way is out of range. -/
theorem draw_eq (s : Screen) (row col : Int) {sprite : List Int} (h : sprite.length ≤ 15) :
    s.draw row col sprite = .ok (s.rowsDrawn (row % s.height).toNat (col % s.width).toNat
      (sprite.map UInt8.ofInt)) := by
  have hrow : (row % s.height).toNat = (row % s.height).toNat % s.height :=
    (Nat.mod_eq_of_lt (toNat_emod_lt s.height_pos row)).symm
  unfold draw
  rw [if_neg (show ¬ maxSpriteRows < sprite.length from Nat.not_lt.2 h),
    wrap_of_pos s.width_pos]
  exact drawRows_eq hrow (toNat_emod_lt s.width_pos col) _

theorem draw_of_too_tall (s : Screen) (row col : Int) {sprite : List Int}
    (h : 15 < sprite.length) :
    s.draw row col sprite = .error (.spriteTooTall sprite.length) :=
  if_pos h

/-- Whatever is drawn was not too tall. -/
theorem eq_rowsDrawn_of_draw {t : Screen} {erased : Bool} {row col : Int} {sprite : List Int}
    (h : s.draw row col sprite = .ok (t, erased)) :
    t = (s.rowsDrawn (row % s.height).toNat (col % s.width).toNat (sprite.map UInt8.ofInt)).1 := by
  by_cases hlen : sprite.length ≤ 15
  · rw [draw_eq s row col hlen] at h
    exact (congrArg Prod.fst (Except.ok.inj h)).symm
  · rw [draw_of_too_tall s row col (Nat.not_le.1 hlen)] at h
    cases h

theorem size_draw {t : Screen} {erased : Bool} {row col : Int} {sprite : List Int}
    (h : s.draw row col sprite = .ok (t, erased)) :
    t.width = s.width ∧ t.height = s.height ∧ t.bytes.size = s.bytes.size := by
  rw [eq_rowsDrawn_of_draw h]
  exact size_rowsDrawn _ _ _ _

end Chip8.Screen
