import Mathlib.Data.List.Basic
import Chip8.Text.Hex

/-!
# Numbers as text

A number is written as a row of digits whose value it is, after a sign if it is negative. So the
text tells the number (`injective_of_signed`), in hexadecimal whatever the width that it was padded
to. Texts without a space can be put in one line and told apart again, and so can lines in a text.
-/

namespace Chip8

/-- Signed numbers are told apart by their texts if the texts of their sizes tell these. -/
theorem injective_of_signed {f : Int → String} {p q : Nat → List Char}
    (hf : ∀ n, (f n).toList = if n < 0 then '-' :: q n.natAbs else p n.natAbs)
    (hp : Function.Injective p) (hq : Function.Injective q) (hsign : ∀ k, '-' ∉ p k) :
    Function.Injective f := by
  intro a b hab
  have htext := congrArg String.toList hab
  rw [hf, hf] at htext
  by_cases ha : a < 0 <;> by_cases hb : b < 0
  · rw [if_pos ha, if_pos hb] at htext
    have hsize := hq (List.cons.inj htext).2
    omega
  · rw [if_pos ha, if_neg hb] at htext
    exact absurd (htext ▸ List.mem_cons_self) (hsign b.natAbs)
  · rw [if_neg ha, if_pos hb] at htext
    exact absurd (htext ▸ List.mem_cons_self) (hsign a.natAbs)
  · rw [if_neg ha, if_neg hb] at htext
    have hsize := hp htext
    omega

/-! ## Hexadecimal numbers -/

namespace Hex

def digit (d : Fin 16) : Char :=
  (Nat.digitChar d.val).toUpper

/-- The number that digits stand for. -/
def number (ds : List (Fin 16)) : Nat :=
  ds.foldl (fun n d => 16 * n + d.val) 0

theorem digit_injective : Function.Injective digit := by
  have hall : ∀ d e : Fin 16, digit d = digit e → d = e := by decide
  exact fun d e h => hall d e h

theorem number_concat (ds : List (Fin 16)) (d : Fin 16) :
    number (ds ++ [d]) = 16 * number ds + d.val := by
  unfold number
  rw [List.foldl_append]
  rfl

theorem number_replicate_zero (k : Nat) (ds : List (Fin 16)) :
    number (List.replicate k 0 ++ ds) = number ds := by
  induction k with
  | zero => rfl
  | succ k ih => exact ih

theorem exists_digits (n : Nat) :
    ∃ ds : List (Fin 16), digits n = ds.map digit ∧ number ds = n := by
  induction n using Nat.strongRecOn with
  | ind n ih =>
    unfold digits
    by_cases hn : n < 16
    · refine ⟨[⟨n, hn⟩], ?_, by simp [number]⟩
      rw [Nat.toDigits_of_lt_base hn]
      rfl
    · obtain ⟨ds, hds, hvalue⟩ := ih (n / 16) (by omega)
      have hlt : n % 16 < 16 := Nat.mod_lt n (by decide)
      refine ⟨ds ++ [⟨n % 16, hlt⟩], ?_, ?_⟩
      · rw [Nat.toDigits_of_base_le (by decide) (Nat.not_lt.1 hn), List.map_append, List.map_append,
          ← hds]
        rfl
      · rw [number_concat, hvalue]
        exact Nat.div_add_mod n 16

theorem exists_zeroPad (w n : Nat) :
    ∃ ds : List (Fin 16), zeroPad w (digits n) = ds.map digit ∧ number ds = n := by
  obtain ⟨ds, hds, hvalue⟩ := exists_digits n
  refine ⟨List.replicate (w - ds.length) 0 ++ ds, ?_, ?_⟩
  · unfold zeroPad
    rw [hds, List.map_append, List.map_replicate, List.length_map]
    rfl
  · rw [number_replicate_zero, hvalue]

theorem zeroPad_injective (w : Nat) : Function.Injective fun n => zeroPad w (digits n) := by
  intro a b hab
  obtain ⟨ds, hds, hda⟩ := exists_zeroPad w a
  obtain ⟨es, hes, heb⟩ := exists_zeroPad w b
  have hsame : ds.map digit = es.map digit := hds.symm.trans (hab.trans hes)
  rw [← hda, ← heb, List.map_injective_iff.2 digit_injective hsame]

theorem exists_digit_of_mem {w n : Nat} {c : Char} (h : c ∈ zeroPad w (digits n)) :
    ∃ d, digit d = c := by
  obtain ⟨ds, hds, -⟩ := exists_zeroPad w n
  rw [hds] at h
  obtain ⟨d, -, hd⟩ := List.mem_map.1 h
  exact ⟨d, hd⟩

theorem toList_padded (w : Nat) (n : Int) :
    (padded w n).toList =
      if n < 0 then '-' :: zeroPad (w - 1) (digits n.natAbs) else zeroPad w (digits n.natAbs) := by
  unfold padded
  by_cases hn : n < 0
  · rw [if_pos hn, if_pos hn, String.toList_ofList]
  · rw [if_neg hn, if_neg hn, String.toList_ofList]

/-- The text of a number tells the number. -/
theorem padded_injective (w : Nat) : Function.Injective (padded w) := by
  apply injective_of_signed (toList_padded w) (zeroPad_injective w) (zeroPad_injective (w - 1))
  intro k hk
  obtain ⟨d, hd⟩ := exists_digit_of_mem hk
  have hsign : ∀ d : Fin 16, digit d ≠ '-' := by decide
  exact hsign d hd

/-- The characters of numbers. -/
def alphabet : List Char :=
  '-' :: (List.finRange 16).map digit

theorem mem_alphabet_of_mem_padded {w : Nat} {n : Int} {c : Char} (h : c ∈ (padded w n).toList) :
    c ∈ alphabet := by
  have hdigit {k m : Nat} (hc : c ∈ zeroPad k (digits m)) : c ∈ alphabet := by
    obtain ⟨d, rfl⟩ := exists_digit_of_mem hc
    exact List.mem_cons_of_mem _ (List.mem_map_of_mem (List.mem_finRange d))
  rw [toList_padded] at h
  by_cases hn : n < 0
  · rw [if_pos hn] at h
    rcases List.mem_cons.1 h with rfl | hc
    · exact List.mem_cons_self
    · exact hdigit hc
  · rw [if_neg hn] at h
    exact hdigit h

end Hex

/-! ## Decimal numbers -/

namespace Decimal

theorem toDigits_injective : Function.Injective (Nat.toDigits 10) := by
  intro a b hab
  have hvalue := congrArg (Nat.ofDigitChars 10 · 0) hab
  rwa [Nat.ofDigitChars_toDigits (by decide) (by decide),
    Nat.ofDigitChars_toDigits (by decide) (by decide)] at hvalue

theorem toList_toString (n : Int) :
    (toString n).toList =
      if n < 0 then '-' :: Nat.toDigits 10 n.natAbs else Nat.toDigits 10 n.natAbs := by
  rw [Int.toString_eq_repr, Int.repr_eq_if]
  by_cases hn : n < 0
  · have hsize : (-n).toNat = n.natAbs := by omega
    rw [if_pos hn, if_neg (by omega), String.toList_append, Nat.repr_eq_ofList_toDigits,
      String.toList_ofList, String.toList_ofList, hsize]
    rfl
  · have hsize : n.toNat = n.natAbs := by omega
    rw [if_neg hn, if_pos (by omega), Nat.repr_eq_ofList_toDigits, String.toList_ofList, hsize]

/-- The characters of decimal numbers. -/
def alphabet : List Char :=
  ['-', '0', '1', '2', '3', '4', '5', '6', '7', '8', '9']

theorem mem_alphabet_of_mem_toDigits {n : Nat} {c : Char} (h : c ∈ Nat.toDigits 10 n) :
    c ∈ alphabet.tail := by
  have hall : ∀ k < 10, Char.ofNat (48 + k) ∈ alphabet.tail := by decide
  have hdigit : c.isDigit = true := Nat.isDigit_of_mem_toDigits (by decide) (by decide) h
  obtain ⟨hlow, hhigh⟩ := Char.isDigit_iff_toNat.1 hdigit
  have hzero : '0'.toNat = 48 := rfl
  have hnine : '9'.toNat = 57 := rfl
  have hc := hall (c.toNat - 48) (by omega)
  rwa [show 48 + (c.toNat - 48) = c.toNat by omega, Char.ofNat_toNat] at hc

theorem toString_injective : Function.Injective fun n : Int => toString n := by
  apply injective_of_signed toList_toString toDigits_injective toDigits_injective
  intro k hk
  have hsign : '-' ∉ alphabet.tail := by decide
  exact hsign (mem_alphabet_of_mem_toDigits hk)

theorem mem_alphabet_of_mem_toString {n : Int} {c : Char} (h : c ∈ (toString n).toList) :
    c ∈ alphabet := by
  rw [toList_toString] at h
  by_cases hn : n < 0
  · rw [if_pos hn] at h
    rcases List.mem_cons.1 h with rfl | hc
    · exact List.mem_cons_self
    · exact List.mem_of_mem_tail (mem_alphabet_of_mem_toDigits hc)
  · rw [if_neg hn] at h
    exact List.mem_of_mem_tail (mem_alphabet_of_mem_toDigits h)

theorem toString_ne_nil (n : Int) : (toString n).toList ≠ [] := by
  rw [toList_toString]
  by_cases hn : n < 0
  · rw [if_pos hn]
    exact List.cons_ne_nil _ _
  · rw [if_neg hn]
    exact Nat.toDigits_ne_nil

end Decimal

/-! ## Words in a line -/

/-- A text without spaces and line ends. -/
def Unbroken (s : String) : Prop :=
  ' ' ∉ s.toList ∧ '\n' ∉ s.toList

/-- A text that a line shows as one word. -/
def IsWord (s : String) : Prop :=
  s ≠ "" ∧ Unbroken s

instance (s : String) : Decidable (Unbroken s) :=
  inferInstanceAs (Decidable (_ ∧ _))

instance (s : String) : Decidable (IsWord s) :=
  inferInstanceAs (Decidable (_ ∧ _))

theorem Unbroken.append {s t : String} (hs : Unbroken s) (ht : Unbroken t) : Unbroken (s ++ t) := by
  unfold Unbroken
  simp only [String.toList_append, List.mem_append, not_or]
  exact ⟨⟨hs.1, ht.1⟩, hs.2, ht.2⟩

theorem IsWord.append {s t : String} (hs : IsWord s) (ht : Unbroken t) : IsWord (s ++ t) :=
  ⟨fun h => hs.1 (String.append_eq_empty_iff.1 h).1, hs.2.append ht⟩

theorem unbroken_padded (w : Nat) (n : Int) : Unbroken (Hex.padded w n) := by
  have hspace : ' ' ∉ Hex.alphabet := by decide
  have hnewline : '\n' ∉ Hex.alphabet := by decide
  exact ⟨fun h => hspace (Hex.mem_alphabet_of_mem_padded h),
    fun h => hnewline (Hex.mem_alphabet_of_mem_padded h)⟩

theorem isWord_toString (n : Int) : IsWord (toString n) := by
  have hspace : ' ' ∉ Decimal.alphabet := by decide
  have hnewline : '\n' ∉ Decimal.alphabet := by decide
  have hne : toString n ≠ "" := fun h => Decimal.toString_ne_nil n (String.toList_eq_nil_iff.2 h)
  exact ⟨hne, fun h => hspace (Decimal.mem_alphabet_of_mem_toString h),
    fun h => hnewline (Decimal.mem_alphabet_of_mem_toString h)⟩

/-- Blanks after the last word are empty words. -/
theorem intercalate_append_replicate (k : Nat) {ws : List String} (hws : ws ≠ []) :
    " ".intercalate (ws ++ List.replicate k "") =
      " ".intercalate ws ++ String.ofList (List.replicate k ' ') := by
  induction k with
  | zero => simp
  | succ k ih =>
    have hne : ws ++ List.replicate k "" ≠ [] := by simp [hws]
    rw [List.replicate_succ', ← List.append_assoc,
      String.intercalate_append_of_ne_nil hne (List.cons_ne_nil "" []), ih]
    apply String.toList_inj.1
    simp [List.replicate_succ']

theorem split_intercalate {ws : List String} (hws : ∀ w ∈ ws, ' ' ∉ w.toList) (hne : ws ≠ []) :
    ((" ".intercalate ws).split ' ').toList.map (·.copy) = ws := by
  have hwords := String.toList_split_intercalate hws
  rwa [if_neg hne] at hwords

/-- The words of a line can be told apart again. -/
theorem eq_of_intercalate_eq {ws vs : List String} (hws : ∀ w ∈ ws, Unbroken w)
    (hvs : ∀ v ∈ vs, Unbroken v) (hne : ws ≠ []) (hne' : vs ≠ [])
    (h : " ".intercalate ws = " ".intercalate vs) : ws = vs := by
  rw [← split_intercalate (fun w hw => (hws w hw).1) hne,
    ← split_intercalate (fun v hv => (hvs v hv).1) hne', h]

theorem filter_append_replicate {ws : List String} (hws : ∀ w ∈ ws, w ≠ "") (k : Nat) :
    (ws ++ List.replicate k "").filter (· ≠ "") = ws := by
  rw [List.filter_append, List.filter_replicate, if_neg (by simp), List.append_nil]
  exact List.filter_eq_self.2 fun w hw => decide_eq_true (hws w hw)

/-- The words of a line, however many blanks there are between them. -/
def wordsOf (line : String) : List String :=
  ((line.split ' ').toList.map (·.copy)).filter (· ≠ "")

theorem wordsOf_append_replicate {ws : List String} (hws : ∀ w ∈ ws, IsWord w) (hne : ws ≠ [])
    (k : Nat) : wordsOf (" ".intercalate ws ++ String.ofList (List.replicate k ' ')) = ws := by
  have hspace : ∀ w ∈ ws ++ List.replicate k "", ' ' ∉ w.toList := by
    intro w hw
    rcases List.mem_append.1 hw with hw | hw
    · exact (hws w hw).2.1
    · rw [List.eq_of_mem_replicate hw]
      decide
  have hne' := List.append_ne_nil_of_left_ne_nil hne (List.replicate k "")
  unfold wordsOf
  rw [← intercalate_append_replicate k hne, split_intercalate hspace hne']
  exact filter_append_replicate (fun w hw => (hws w hw).1) k

/-- A line of words does not end before its last one. -/
theorem newline_notMem_intercalate {ws : List String} (hws : ∀ w ∈ ws, Unbroken w) :
    '\n' ∉ (" ".intercalate ws).toList := by
  induction ws with
  | nil => decide
  | cons w ws ih =>
    have hw : '\n' ∉ w.toList := (hws w List.mem_cons_self).2
    by_cases hnil : ws = []
    · rwa [hnil, String.intercalate_singleton]
    · have hrest := ih fun v hv => hws v (List.mem_cons_of_mem w hv)
      rw [String.intercalate_cons_of_ne_nil hnil, String.toList_append, String.toList_append]
      simp only [List.mem_append, not_or]
      exact ⟨⟨hw, by decide⟩, hrest⟩

/-! ## Lines in a text -/

/-- The lines of a text; an empty text has none. -/
def linesOf (text : String) : List String :=
  if text = "" then [] else (text.split '\n').toList.map (·.copy)

theorem linesOf_intercalate {ls : List String} (hls : ∀ l ∈ ls, l ≠ "" ∧ '\n' ∉ l.toList) :
    linesOf ("\n".intercalate ls) = ls := by
  have hlines := String.toList_split_intercalate fun l hl => (hls l hl).2
  unfold linesOf
  cases ls with
  | nil => rfl
  | cons l ls =>
    have hl : l ≠ "" := (hls l List.mem_cons_self).1
    have htext : "\n".intercalate (l :: ls) ≠ "" := by
      by_cases hnil : ls = []
      · rwa [hnil, String.intercalate_singleton]
      · rw [String.intercalate_cons_of_ne_nil hnil]
        intro h
        have hfirst := (String.append_eq_empty_iff.1 h).1
        exact hl (String.append_eq_empty_iff.1 hfirst).1
    rw [if_neg (List.cons_ne_nil l ls)] at hlines
    rw [if_neg htext]
    exact hlines

end Chip8
