import Chip8.Proofs.Collisions
import Chip8.Proofs.Numbers

/-!
# Views of the screen

The screen can be read as single pixels, as rows of storage bytes, as the number of lit pixels and
as a text. All of these show the same dots, and a screen is told by its dots (`eq_of_dot`).
So it is told by its text, if the text writes lit and dark pixels as different characters
(`eq_of_text`).
-/

namespace Chip8.Screen

variable {s s' : Screen} {a b : Char} {r c : Nat}

/-! ## Pixels and bytes -/

theorem pixel_eq_dot_of_lt (hr : r < s.height) (hc : c < s.width) : s.pixel r c = s.dot r c := by
  rw [pixel_eq_dot, Int.emod_eq_of_lt (by omega) (by omega),
    Int.emod_eq_of_lt (by omega) (by omega), Int.toNat_natCast, Int.toNat_natCast]

theorem rowBytes_eq_take (s : Screen) (row : Int) : s.rowBytes row =
    (s.framebuffer.drop ((row % s.height).toNat * s.stride)).take s.stride := by
  unfold rowBytes framebuffer
  rw [Array.toList_extract, List.extract_eq_take_drop, Nat.add_sub_cancel_left]

theorem length_rowBytes (s : Screen) (row : Int) :
    (s.rowBytes row).length = s.stride := by
  have hle : ((row % s.height).toNat + 1) * s.stride ≤ s.height * s.stride :=
    Nat.mul_le_mul_right _ (toNat_emod_lt s.height_pos row)
  rw [Nat.succ_mul] at hle
  rw [rowBytes_eq_take, List.length_take, List.length_drop, framebuffer, Array.length_toList,
    s.size_eq]
  omega

theorem getElem?_rowBytes (s : Screen) (row : Int) {q : Nat} (hq : q < s.stride) :
    (s.rowBytes row)[q]? = some (s.bytes.getD ((row % s.height).toNat * s.stride + q) 0) := by
  have hlt := s.index_lt (toNat_emod_lt s.height_pos row) hq
  rw [rowBytes_eq_take, List.getElem?_take_of_lt hq, List.getElem?_drop, framebuffer,
    Array.getElem?_toList, Array.getD_eq_getD_getElem?, Array.getElem?_eq_getElem hlt]
  rfl

/-- The bytes of a row are a slice of the picture. -/
theorem rowBytes_slice (s : Screen) (row : Int) : s.rowBytes row =
    (s.framebuffer.drop ((row % s.height).toNat * s.width / 8)).take (s.width / 8) := by
  rw [Nat.mul_div_assoc _ (Nat.dvd_of_mod_eq_zero s.aligned)]
  exact s.rowBytes_eq_take row

/-- A pixel is a bit of a storage byte of its row. -/
theorem exists_byte (s : Screen) (row col : Int) :
    ∃ v, (s.rowBytes row)[(col % s.width).toNat / 8]? = some v ∧
      s.pixel row col = v.toNat.testBit (7 - (col % s.width).toNat % 8) := by
  have hcol := toNat_emod_lt s.width_pos col
  have hwidth := s.width_eq
  refine ⟨_, s.getElem?_rowBytes row (by omega), ?_⟩
  exact Byte.bitAt_eq_testBit _ (Nat.mod_lt _ (by decide))

/-- A screen is told by its dots. -/
theorem eq_of_dot (hw : s'.width = s.width)
    (hh : s'.height = s.height) (h : ∀ r < s.height, ∀ c < s.width, s'.dot r c = s.dot r c) :
    s' = s := by
  have hstride : s'.stride = s.stride := congrArg (· / 8) hw
  have hsize : s'.bytes.size = s.bytes.size := by rw [s'.size_eq, s.size_eq, hh, hstride]
  have hbytes : s'.bytes = s.bytes := by
    have hpos : 0 < s.stride := by
      have hwidth := s.width_eq
      have hwide := s.width_pos
      omega
    refine Array.ext hsize fun k hk' hk => Byte.eq_of_bitAt fun j hj => ?_
    have hr : k / s.stride < s.height := (Nat.div_lt_iff_lt_mul hpos).2 (s.size_eq ▸ hk)
    have hq : k % s.stride < s.stride := Nat.mod_lt k hpos
    have hdot := h (k / s.stride) hr (8 * (k % s.stride) + j) (by rw [s.width_eq]; omega)
    unfold dot at hdot
    rw [hstride, show (8 * (k % s.stride) + j) / 8 = k % s.stride by omega,
      show (8 * (k % s.stride) + j) % 8 = j by omega, Nat.div_add_mod'] at hdot
    simpa [hk, hk'] using hdot
  obtain ⟨w, h, bs⟩ := s
  obtain ⟨w', h', bs'⟩ := s'
  cases hw
  cases hh
  cases hbytes
  rfl

/-! ## The number of lit pixels -/

theorem lit_eq_card (s : Screen) :
    s.lit = ((Finset.range s.height ×ˢ Finset.range s.width).filter fun p =>
      s.pixel p.1 p.2).card := by
  rw [lit_eq_sum_dot, Finset.card_filter, Finset.sum_product]
  refine Finset.sum_congr rfl fun r hr => Finset.sum_congr rfl fun c hc => ?_
  rw [pixel_eq_dot_of_lt (Finset.mem_range.1 hr) (Finset.mem_range.1 hc)]
  cases s.dot r c <;> rfl

/-! ## Text -/

/-- The items of a line of the text. -/
def items (s : Screen) (on off : String) (r : Nat) : List String :=
  (List.range s.width).map fun (c : Nat) => if s.pixel r c then on else off

theorem getElem?_items {on off : String} (hc : c < s.width) :
    (s.items on off r)[c]? = some (if s.pixel r c then on else off) := by
  unfold items
  rw [List.getElem?_map, List.getElem?_range hc]
  rfl

/-- A row whose items are single characters. -/
theorem toList_rowText (s : Screen) (a b : Char) (r : Nat) :
    (s.rowText (String.singleton a) (String.singleton b) r).toList =
      (List.range s.width).map fun (c : Nat) => if s.pixel r c then a else b := by
  have hitem (c : Nat) : (if s.pixel r c then String.singleton a else String.singleton b).toList =
      [if s.pixel r c then a else b] := by
    cases s.pixel r c <;> simp
  unfold rowText
  rw [String.toList_join, List.flatMap_map]
  simp only [hitem]
  exact List.map_eq_flatMap.symm

theorem count_rowText (hab : a ≠ b) (r : Nat) :
    (s.rowText (String.singleton a) (String.singleton b) r).toList.count a =
      ∑ c ∈ Finset.range s.width, (s.pixel r c).toNat := by
  have hchar (c : Nat) : ((if s.pixel r c then a else b) == a) = s.pixel r c := by
    cases s.pixel r c
    · exact beq_false_of_ne hab.symm
    · exact beq_self_eq_true a
  rw [toList_rowText, List.count, List.countP_map, ← Byte.countP_range_eq_sum]
  exact List.countP_congr fun c _ => by rw [Function.comp_apply, hchar]

/-- Line breaks are not counted. -/
theorem count_intercalate {ch : Char} (hch : ch ≠ '\n') (ls : List String) :
    ("\n".intercalate ls).toList.count ch = (ls.map fun l => l.toList.count ch).sum := by
  induction ls with
  | nil => rfl
  | cons l ls ih =>
    by_cases hnil : ls = []
    · subst hnil
      simp
    · have hbreak : "\n".toList.count ch = 0 :=
        List.count_eq_zero.2 fun hmem => hch (List.mem_singleton.1 hmem)
      rw [String.intercalate_cons_of_ne_nil hnil, String.toList_append, String.toList_append,
        List.count_append, List.count_append, hbreak, ih, List.map_cons, List.sum_cons]
      rfl

theorem count_text (s : Screen) (hab : a ≠ b) (ha : a ≠ '\n') :
    (s.text (String.singleton a) (String.singleton b)).toList.count a = s.lit := by
  unfold text
  rw [count_intercalate ha, List.map_map, lit_eq_sum_dot]
  calc _ = ∑ r ∈ Finset.range s.height,
        (s.rowText (String.singleton a) (String.singleton b) r).toList.count a := rfl
    _ = _ := by
        refine Finset.sum_congr rfl fun r hr => ?_
        rw [count_rowText hab]
        refine Finset.sum_congr rfl fun c hc => ?_
        rw [pixel_eq_dot_of_lt (Finset.mem_range.1 hr) (Finset.mem_range.1 hc)]

theorem rowText_isLine (hw : 0 < s.width) (ha : a ≠ '\n') (hb : b ≠ '\n') (r : Nat) :
    s.rowText (String.singleton a) (String.singleton b) r ≠ "" ∧
      '\n' ∉ (s.rowText (String.singleton a) (String.singleton b) r).toList := by
  constructor
  · intro hempty
    have hlength := congrArg (fun t => t.toList.length) hempty
    simp only [toList_rowText, List.length_map, List.length_range] at hlength
    exact hw.ne' hlength
  · rw [toList_rowText]
    intro hmem
    obtain ⟨c, -, hc⟩ := List.mem_map.1 hmem
    cases hp : s.pixel r c
    · rw [hp] at hc
      exact hb hc
    · rw [hp] at hc
      exact ha hc

/-- Screens of one size are told by their text. -/
theorem eq_of_text (hw : s'.width = s.width)
    (hh : s'.height = s.height) (hab : a ≠ b) (ha : a ≠ '\n') (hb : b ≠ '\n')
    (h : s'.text (String.singleton a) (String.singleton b) =
      s.text (String.singleton a) (String.singleton b)) : s' = s := by
  have hlines (t : Screen) :
      linesOf (t.text (String.singleton a) (String.singleton b)) =
        (List.range t.height).map (t.rowText (String.singleton a) (String.singleton b)) :=
    linesOf_intercalate fun l hl => by
      obtain ⟨r, -, rfl⟩ := List.mem_map.1 hl
      exact rowText_isLine t.width_pos ha hb r
  have hrows := (hlines s').symm.trans ((congrArg linesOf h).trans (hlines s))
  rw [hh] at hrows
  refine eq_of_dot hw hh fun r hr c hc => ?_
  have hrow := congrArg String.toList (List.map_inj_left.1 hrows r (List.mem_range.2 hr))
  rw [toList_rowText, toList_rowText, hw] at hrow
  have hchar := List.map_inj_left.1 hrow c (List.mem_range.2 hc)
  rw [pixel_eq_dot_of_lt (hh ▸ hr) (hw ▸ hc), pixel_eq_dot_of_lt hr hc] at hchar
  revert hchar
  cases s'.dot r c <;> cases s.dot r c <;> simp [hab, hab.symm]

/-! ## All views -/

/-- All views of the screen agree, for screens of every size with any bytes. A pixel is a bit of a
byte of its row, and the bytes of a row are a slice of the picture, for any numbers of row and
column. The number of lit pixels is that of the places at which a pixel is lit. The text has a line
for every row, with an item for every column that tells whether the pixel is lit. If the items are
different characters and neither is a line break, the text holds the first as often as there are lit
pixels, and no other screen of this size has the same text. -/
theorem views_agree (s : Screen) :
    (∀ row col : Int, ∃ v, (s.rowBytes row)[(col % s.width).toNat / 8]? = some v ∧
      s.pixel row col = v.toNat.testBit (7 - (col % s.width).toNat % 8)) ∧
    (∀ row : Int, (s.rowBytes row).length = s.width / 8 ∧ s.rowBytes row =
      (s.framebuffer.drop ((row % s.height).toNat * s.width / 8)).take (s.width / 8)) ∧
    s.lit = ((Finset.range s.height ×ˢ Finset.range s.width).filter fun p =>
      s.pixel p.1 p.2).card ∧
    (∀ on off, ∃ lines : List (List String),
      s.text on off = "\n".intercalate (lines.map String.join) ∧ lines.length = s.height ∧
      ∀ r < s.height, ∃ xs, lines[r]? = some xs ∧ xs.length = s.width ∧
        ∀ c < s.width, xs[c]? = some (if s.pixel r c then on else off)) ∧
    ∀ a b : Char, a ≠ b → a ≠ '\n' → b ≠ '\n' →
      (s.text (String.singleton a) (String.singleton b)).toList.count a = s.lit ∧
      ∀ s' : Screen, s'.width = s.width → s'.height = s.height →
        s'.text (String.singleton a) (String.singleton b) =
          s.text (String.singleton a) (String.singleton b) → s' = s := by
  refine ⟨s.exists_byte, fun row => ⟨s.length_rowBytes row, s.rowBytes_slice row⟩,
    s.lit_eq_card, fun on off => ?_, fun a b hab ha hb => ⟨s.count_text hab ha, ?_⟩⟩
  · refine ⟨(List.range s.height).map (s.items on off), ?_, by simp, fun r hr => ?_⟩
    · rw [List.map_map]
      rfl
    · refine ⟨s.items on off r, ?_, by simp [items], fun c hc => getElem?_items hc⟩
      rw [List.getElem?_map, List.getElem?_range hr]
      rfl
  · exact fun s' hw hh h => eq_of_text hw hh hab ha hb h

/-- A screen of two rows, each of two bytes. -/
def sparse : Screen where
  width := 16
  height := 2
  bytes := #[0x80, 0x01, 0, 0x40]
  height_pos := Nat.two_pos

/-- Coordinates of any size lead back to the same pixels. -/
theorem views_agree_sparse :
    sparse.pixel (-1) 25 = true ∧ sparse.rowBytes (-1) = [0, 0x40] ∧
      sparse.text "#" "." = "#..............#\n.........#......" ∧
      ((Finset.range 2 ×ˢ Finset.range 16).filter fun p => sparse.pixel p.1 p.2).card = 3 ∧
      ∀ s' : Screen, s'.width = 16 → s'.height = 2 →
        s'.text "#" "." = "#..............#\n.........#......" → s' = sparse := by
  have htext : sparse.text "#" "." = "#..............#\n.........#......" := by decide +kernel
  obtain ⟨hpixel, hrow, hlit, -, hchars⟩ := views_agree sparse
  obtain ⟨v, hv, hbit⟩ := hpixel (-1) 25
  have hlast : sparse.rowBytes (-1) = [0, 0x40] := (hrow (-1)).2
  rw [hlast] at hv
  obtain rfl : (0x40 : UInt8) = v := Option.some.inj hv
  refine ⟨hbit, hlast, htext, hlit.symm, fun s' hw hh h => ?_⟩
  exact (hchars '#' '.' (by decide) (by decide) (by decide)).2 s' hw hh (h.trans htext.symm)

end Chip8.Screen
