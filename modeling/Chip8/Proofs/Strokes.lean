import Mathlib.Data.List.Perm.Basic
import Chip8.Proofs.Collisions

/-!
# Drawings in any order

A drawing is a sequence of strokes, each an exclusive or on one storage byte, and where they fall
depends on the size of the screen alone (`drawAll_eq`). Strokes commute, and a stroke undoes itself.
So drawings may be made in any order, and two equal ones cancel, wherever they are made. Pixels do
not enter here but through the count of those that are lit.
-/

namespace Chip8

/-- A mask for one storage byte. -/
structure Stroke where
  place : Nat
  mask : UInt8
  deriving DecidableEq, Repr

/-- A sprite and where it is drawn. -/
structure Drawing where
  row : Int
  col : Int
  sprite : List Int
  deriving DecidableEq, Repr

namespace Stroke

/-- The strokes of one sprite byte on a screen with `n` storage bytes to a row. -/
def ofByte (n row col : Nat) (b : UInt8) : List Stroke :=
  let shift := UInt8.ofNat (col % 8)
  ⟨row * n + col / 8, b >>> shift⟩ ::
    if shift = 0 then [] else [⟨row * n + (col / 8 + 1) % n, b <<< (8 - shift)⟩]

/-- The strokes of sprite bytes in consecutive rows of a screen with sides `w` and `h`. -/
def ofRows (w h row col : Nat) : List UInt8 → List Stroke
  | [] => []
  | b :: bs => ofByte (w / 8) (row % h) col b ++ ofRows w h (row + 1) col bs

end Stroke

def Drawing.strokes (w h : Nat) (d : Drawing) : List Stroke :=
  Stroke.ofRows w h (d.row % h).toNat (d.col % w).toNat (d.sprite.map UInt8.ofInt)

namespace Screen

def paint (s : Screen) (p : Stroke) : Screen :=
  (s.flipped p.place p.mask).1

def paintAll (s : Screen) (ps : List Stroke) : Screen :=
  ps.foldl paint s

/-- One drawing after the other. -/
def drawAll (s : Screen) : List Drawing → Except Misuse Screen
  | [] => .ok s
  | d :: ds => do (← s.draw d.row d.col d.sprite).1.drawAll ds

variable {s : Screen} {p q : Stroke} {ps qs : List Stroke} {d : Drawing} {ds es : List Drawing}

/-! ## Strokes -/

theorem paint_comm (s : Screen) (p q : Stroke) : (s.paint p).paint q = (s.paint q).paint p := by
  have hbytes : (s.bytes.modify p.place (· ^^^ p.mask)).modify q.place (· ^^^ q.mask) =
      (s.bytes.modify q.place (· ^^^ q.mask)).modify p.place (· ^^^ p.mask) := by
    refine Array.ext_getElem? fun k => ?_
    simp only [Array.getElem?_modify]
    by_cases hp : p.place = k
    · by_cases hq : q.place = k
      · simp only [if_pos hp, if_pos hq, Option.map_map, Function.comp_def, UInt8.xor_assoc,
          UInt8.xor_comm p.mask]
      · simp only [if_neg hq]
    · simp only [if_neg hp]
  unfold paint flipped
  simp only [hbytes]

theorem paint_paint (s : Screen) (p : Stroke) : (s.paint p).paint p = s := by
  have hbytes : (s.bytes.modify p.place (· ^^^ p.mask)).modify p.place (· ^^^ p.mask) =
      s.bytes := by
    refine Array.ext_getElem? fun k => ?_
    simp only [Array.getElem?_modify]
    by_cases hp : p.place = k
    · have hself (b : UInt8) : b ^^^ p.mask ^^^ p.mask = b := by
        rw [UInt8.xor_assoc, UInt8.xor_self, UInt8.xor_zero]
      simp only [if_pos hp, Option.map_map, Function.comp_def, hself, Option.map_id']
    · simp only [if_neg hp]
  unfold paint flipped
  simp only [hbytes]

theorem paintAll_append (s : Screen) (ps qs : List Stroke) :
    s.paintAll (ps ++ qs) = (s.paintAll ps).paintAll qs :=
  List.foldl_append

theorem paintAll_perm (h : ps.Perm qs) (s : Screen) : s.paintAll ps = s.paintAll qs :=
  h.foldl_eq' (fun p _ q _ t => t.paint_comm p q) s

theorem paintAll_twice (s : Screen) (ps : List Stroke) : s.paintAll (ps ++ ps) = s := by
  induction ps generalizing s with
  | nil => rfl
  | cons p ps ih =>
    have hpair : (p :: ps ++ p :: ps).Perm (p :: p :: (ps ++ ps)) :=
      List.Perm.cons p List.perm_middle
    calc s.paintAll (p :: ps ++ p :: ps)
        = ((s.paint p).paint p).paintAll (ps ++ ps) := paintAll_perm hpair s
      _ = s.paintAll (ps ++ ps) := by rw [paint_paint]
      _ = s := ih s

/-! ## Drawings as strokes -/

theorem width_paintAll (s : Screen) (ps : List Stroke) : (s.paintAll ps).width = s.width := by
  induction ps generalizing s with
  | nil => rfl
  | cons p ps ih => exact ih (s.paint p)

theorem height_paintAll (s : Screen) (ps : List Stroke) : (s.paintAll ps).height = s.height := by
  induction ps generalizing s with
  | nil => rfl
  | cons p ps ih => exact ih (s.paint p)

theorem byteDrawn_eq_paintAll (s : Screen) (row col : Nat) (b : UInt8) :
    (s.byteDrawn row col b).1 = s.paintAll (Stroke.ofByte s.stride row col b) := by
  simp only [byteDrawn, Stroke.ofByte]
  split
  · rfl
  · rfl

theorem rowsDrawn_eq_paintAll (s : Screen) (row col : Nat) (bs : List UInt8) :
    (s.rowsDrawn row col bs).1 = s.paintAll (Stroke.ofRows s.width s.height row col bs) := by
  induction bs generalizing s row with
  | nil => rfl
  | cons b bs ih =>
    rw [rowsDrawn, ih, byteDrawn_eq_paintAll, width_paintAll, height_paintAll, ← paintAll_append]
    rfl

theorem exists_draw_eq_paintAll (s : Screen) (hd : d.sprite.length ≤ 15) :
    ∃ erased, s.draw d.row d.col d.sprite =
      .ok (s.paintAll (d.strokes s.width s.height), erased) := by
  unfold Drawing.strokes
  rw [s.draw_eq d.row d.col hd, ← rowsDrawn_eq_paintAll]
  exact ⟨_, rfl⟩

theorem drawAll_eq (s : Screen) (h : ∀ d ∈ ds, d.sprite.length ≤ 15) :
    s.drawAll ds = .ok (s.paintAll (ds.flatMap (Drawing.strokes s.width s.height))) := by
  induction ds generalizing s with
  | nil => rfl
  | cons d ds ih =>
    obtain ⟨erased, hd⟩ := s.exists_draw_eq_paintAll (h d List.mem_cons_self)
    have hrest := ih (s.paintAll (d.strokes s.width s.height))
      fun e he => h e (List.mem_cons_of_mem d he)
    rw [width_paintAll, height_paintAll, ← paintAll_append] at hrest
    rw [drawAll, hd]
    exact hrest

theorem drawAll_perm (h : ∀ d ∈ ds, d.sprite.length ≤ 15) (hp : es.Perm ds) (s : Screen) :
    s.drawAll es = s.drawAll ds := by
  rw [drawAll_eq s fun d hd => h d (hp.mem_iff.1 hd), drawAll_eq s h,
    paintAll_perm (hp.flatMap_right _)]

/-- Two equal drawings among others make no difference. -/
theorem drawAll_of_perm_pair (hd : d.sprite.length ≤ 15) (h : ∀ e ∈ ds, e.sprite.length ≤ 15)
    (hp : es.Perm (d :: d :: ds)) (s : Screen) : s.drawAll es = s.drawAll ds := by
  have hall : ∀ e ∈ d :: d :: ds, e.sprite.length ≤ 15 := by
    simp only [List.mem_cons, forall_eq_or_imp]
    exact ⟨hd, hd, h⟩
  rw [drawAll_perm hall hp, drawAll_eq s hall, drawAll_eq s h, List.flatMap_cons,
    List.flatMap_cons, ← List.append_assoc, paintAll_append, paintAll_twice]

/-! ## The answers of two equal drawings -/

theorem bitCount_pos {sprite : List Int} (h : ∃ v ∈ sprite, v % 256 ≠ 0) :
    0 < bitCount (sprite.map UInt8.ofInt) := by
  obtain ⟨v, hv, hne⟩ := h
  have hbyte : UInt8.ofInt v ≠ 0 := by
    intro h0
    have hzero := congrArg UInt8.toNat h0
    rw [Byte.toNat_ofInt] at hzero
    change (v % 256).toNat = 0 at hzero
    omega
  have hle : popCount (UInt8.ofInt v) ≤ bitCount (sprite.map UInt8.ofInt) :=
    List.single_le_sum (by simp) _ (List.mem_map_of_mem (List.mem_map_of_mem hv))
  have hpos : popCount (UInt8.ofInt v) ≠ 0 := fun h0 => hbyte (Byte.popCount_eq_zero_iff.1 h0)
  omega

/-- Bits that light pixels in both of two equal drawings would leave more of them lit than
before. -/
theorem erased_of_twice {t : Screen} {x y : Bool} (hd : d.sprite.length ≤ 15)
    (hbit : ∃ v ∈ d.sprite, v % 256 ≠ 0) (h : s.draw d.row d.col d.sprite = .ok (t, x))
    (h' : t.draw d.row d.col d.sprite = .ok (s, y)) : x = true ∨ y = true := by
  obtain ⟨t', x', hx, hanswer⟩ := exists_draw d.row d.col hd
  obtain ⟨s', y', hy, hanswer'⟩ := exists_draw d.row d.col hd
  obtain ⟨rfl, rfl⟩ := Prod.mk.inj (Except.ok.inj (h.symm.trans hx))
  obtain ⟨rfl, rfl⟩ := Prod.mk.inj (Except.ok.inj (h'.symm.trans hy))
  have hpos := bitCount_pos hbit
  by_contra hkept
  rw [not_or, Bool.not_eq_true, Bool.not_eq_true] at hkept
  have hlit := hanswer.kept_iff.1 hkept.1
  have hlit' := hanswer'.kept_iff.1 hkept.2
  omega

/-- Drawings commute and cancel. Any drawings of sprites with at most fifteen rows succeed, and lead
to the same screen in whatever order they are made; a further drawing that is made twice among them,
at any two places, makes no difference. If it is made twice in a row, the screen is as before, and
if its sprite has a set bit, one of the two answers at least is that a lit pixel went dark. -/
theorem drawings_commute_and_cancel (s : Screen) (hds : ∀ d ∈ ds, d.sprite.length ≤ 15) :
    (∃ s', s.drawAll ds = .ok s' ∧ ∀ es : List Drawing, es.Perm ds → s.drawAll es = .ok s') ∧
    ∀ d : Drawing, d.sprite.length ≤ 15 →
      (∀ before between rest, ds = before ++ between ++ rest →
        s.drawAll (before ++ d :: between ++ d :: rest) = s.drawAll ds) ∧
      ∃ t x y, s.draw d.row d.col d.sprite = .ok (t, x) ∧
        t.draw d.row d.col d.sprite = .ok (s, y) ∧
        ((∃ v ∈ d.sprite, v % 256 ≠ 0) → x = true ∨ y = true) := by
  refine ⟨⟨_, s.drawAll_eq hds, fun es hp => ?_⟩, fun d hd => ⟨?_, ?_⟩⟩
  · rw [drawAll_perm hds hp, s.drawAll_eq hds]
  · intro before between rest hsplit
    have hp : (before ++ d :: between ++ d :: rest).Perm (d :: d :: ds) := by
      rw [hsplit]
      refine List.perm_middle.trans (List.Perm.cons d ?_)
      rw [List.append_assoc, List.cons_append, List.append_assoc]
      exact List.perm_middle
    exact drawAll_of_perm_pair hd hds hp s
  · obtain ⟨x, hx⟩ := s.exists_draw_eq_paintAll hd
    obtain ⟨y, hy⟩ := (s.paintAll (d.strokes s.width s.height)).exists_draw_eq_paintAll hd
    rw [width_paintAll, height_paintAll, ← paintAll_append, paintAll_twice] at hy
    exact ⟨_, x, y, hx, hy, fun hbit => erased_of_twice hd hbit hx hy⟩

/-- The rows of the first sprite meet each other and those of the second. -/
theorem drawings_commute_and_cancel_low :
    low.drawAll [⟨-1, 5, [0x81, 0x100, 0x80]⟩, ⟨0, 3, [0xFF]⟩] =
        .ok (.mk 8 2 #[0xFF, 0x0C]) ∧
      low.drawAll [⟨0, 3, [0xFF]⟩, ⟨-1, 5, [0x81, 0x100, 0x80]⟩] =
        .ok (.mk 8 2 #[0xFF, 0x0C]) ∧
      low.drawAll [⟨1, 4, [0x0F]⟩, ⟨-1, 5, [0x81, 0x100, 0x80]⟩, ⟨1, 4, [0x0F]⟩,
        ⟨0, 3, [0xFF]⟩] = .ok (.mk 8 2 #[0xFF, 0x0C]) ∧
      ∃ t x y, low.draw 1 4 [0x0F] = .ok (t, x) ∧
        t.draw 1 4 [0x0F] = .ok (low, y) ∧ (x = true ∨ y = true) := by
  have hboth : low.drawAll [⟨-1, 5, [0x81, 0x100, 0x80]⟩, ⟨0, 3, [0xFF]⟩] =
      .ok (.mk 8 2 #[0xFF, 0x0C]) := by decide +kernel
  have hlow : ∀ d ∈ ([⟨-1, 5, [0x81, 0x100, 0x80]⟩, ⟨0, 3, [0xFF]⟩] : List Drawing),
      d.sprite.length ≤ 15 := by decide
  obtain ⟨⟨s', hs', horder⟩, hpairs⟩ := drawings_commute_and_cancel low hlow
  obtain ⟨hpair, t, x, y, hx, hy, hanswer⟩ := hpairs ⟨1, 4, [0x0F]⟩ (by decide)
  obtain rfl : s' = .mk 8 2 #[0xFF, 0x0C] := Except.ok.inj (hs'.symm.trans hboth)
  refine ⟨hboth, horder _ (.swap _ _ _), ?_, t, x, y, hx, hy, ?_⟩
  · exact (hpair [] [_] [_] rfl).trans hboth
  · exact hanswer ⟨0x0F, by decide, by decide⟩

end Screen

end Chip8
