import Mathlib.Data.List.Forall2
import Mathlib.Data.List.TakeWhile
import Chip8.Proofs.Numbers
import Chip8.Text.Numeral

/-!
# Numbers read back

A number can be written with any zeros in front of its digits, in letters of either case
(`Spells`), with a sign, with blanks around it and, in base sixteen, with a mark. All of this is
read as the number again. The mark alone decides on base sixteen: a text that begins with none of
them has to be a row of decimal digits (`exists_decimal_of_parse`).
-/

namespace Chip8

/-! ## Blanks at the ends -/

namespace Blank

variable {p q : Char → Bool} {cs pre post : List Char}

/-- Neither end of the text is in the class. -/
structure Trimmed (p : Char → Bool) (cs : List Char) : Prop where
  head : ∀ c ∈ cs.head?, p c = false
  last : ∀ c ∈ cs.getLast?, p c = false

theorem trimmed_of_forall (h : ∀ c ∈ cs, p c = false) : Trimmed p cs :=
  ⟨fun c hc => h c (List.mem_of_mem_head? hc), fun c hc => h c (List.mem_of_mem_getLast? hc)⟩

theorem Trimmed.mono (h : Trimmed p cs) (hpq : ∀ c, q c = true → p c = true) : Trimmed q cs :=
  ⟨fun c hc => Bool.eq_false_iff.2 fun hq => Bool.eq_false_iff.1 (h.head c hc) (hpq c hq),
    fun c hc => Bool.eq_false_iff.2 fun hq => Bool.eq_false_iff.1 (h.last c hc) (hpq c hq)⟩

theorem trimmed_trim (p : Char → Bool) (cs : List Char) : Trimmed p (trim p cs) := by
  constructor
  · intro c hc
    have hprefix : trim p cs <+: trimStart p cs := by
      have hsuffix := (List.dropWhile_suffix p (l := (trimStart p cs).reverse)).reverse
      rwa [List.reverse_reverse] at hsuffix
    obtain ⟨rest, hrest⟩ := hprefix
    have hhead : (cs.dropWhile p).head? = some c := by
      show (trimStart p cs).head? = some c
      rw [← hrest, List.head?_append, hc]
      rfl
    have hnot := List.head?_dropWhile_not p cs
    rwa [hhead] at hnot
  · intro c hc
    have hhead : ((trimStart p cs).reverse.dropWhile p).head? = some c := by
      rw [← List.getLast?_reverse]
      exact hc
    have hnot := List.head?_dropWhile_not p (trimStart p cs).reverse
    rwa [hhead] at hnot

theorem Trimmed.trimStart_append (h : Trimmed p cs) (hne : cs ≠ []) (post : List Char) :
    trimStart p (cs ++ post) = cs ++ post := by
  cases cs with
  | nil => exact absurd rfl hne
  | cons c cs => exact trimStart_cons_of_neg (h.head c rfl) (cs ++ post)

theorem Trimmed.trimEnd_append (h : Trimmed p cs) (hpost : ∀ c ∈ post, p c = true) :
    trimEnd p (cs ++ post) = cs := by
  unfold trimEnd
  rw [List.reverse_append, List.dropWhile_append_of_pos fun c hc => hpost c (List.mem_reverse.1 hc)]
  rcases List.eq_nil_or_concat' cs with rfl | ⟨cs, c, rfl⟩
  · rfl
  · exact trimEnd_concat_of_neg (h.last c (List.getLast?_concat)) cs

/-- Trimming leaves what stands between blanks. -/
theorem Trimmed.trim_append (h : Trimmed p cs) (hne : cs ≠ []) (hpre : ∀ c ∈ pre, p c = true)
    (hpost : ∀ c ∈ post, p c = true) : trim p (pre ++ cs ++ post) = cs := by
  have hstart : trimStart p (pre ++ cs ++ post) = cs ++ post := by
    rw [List.append_assoc, trimStart, List.dropWhile_append_of_pos hpre]
    exact h.trimStart_append hne post
  unfold trim
  rw [hstart, h.trimEnd_append hpost]

theorem Trimmed.trim_eq (h : Trimmed p cs) : trim p cs = cs := by
  by_cases hne : cs = []
  · rw [hne]
    rfl
  · have hnone : ∀ c ∈ ([] : List Char), p c = true := nofun
    have htrim := h.trim_append hne hnone hnone
    rwa [List.nil_append, List.append_nil] at htrim

end Blank

/-! ## Digits -/

namespace Digit

variable {b d n acc : Nat} {c : Char} {cs : List Char} {ds : List Nat}

/-- The character is the digit `d`, as a letter in either case. -/
def IsDigit (c : Char) (d : Nat) : Prop :=
  c = d.digitChar ∨ c = d.digitChar.toUpper

/-- The number of digits in base `b` that follow those of `acc`. -/
def number (b acc : Nat) (ds : List Nat) : Nat :=
  ds.foldl (fun n d => b * n + d) acc

theorem number_concat (b acc : Nat) (ds : List Nat) (d : Nat) :
    number b acc (ds ++ [d]) = b * number b acc ds + d := by
  unfold number
  rw [List.foldl_append]
  rfl

theorem number_replicate_zero (b k : Nat) (ds : List Nat) :
    number b 0 (List.replicate k 0 ++ ds) = number b 0 ds := by
  induction k with
  | zero => rfl
  | succ k ih => exact ih

/-- The digits of a number are small, and the number is theirs. -/
theorem exists_toDigits (hb : 1 < b) (n : Nat) :
    ∃ ds : List Nat, Nat.toDigits b n = ds.map Nat.digitChar ∧ (∀ d ∈ ds, d < b) ∧
      number b 0 ds = n := by
  induction n using Nat.strongRecOn with
  | ind n ih =>
    by_cases hn : n < b
    · exact ⟨[n], Nat.toDigits_of_lt_base hn, by simpa using hn, by simp [number]⟩
    · have hle := Nat.not_lt.1 hn
      obtain ⟨ds, hds, hlt, hvalue⟩ := ih (n / b) (Nat.div_lt_self (by omega) hb)
      refine ⟨ds ++ [n % b], ?_, ?_, ?_⟩
      · rw [Nat.toDigits_of_base_le hb hle, hds, List.map_append]
        rfl
      · intro d hd
        rcases List.mem_append.1 hd with hd | hd
        · exact hlt d hd
        · rw [List.mem_singleton.1 hd]
          exact Nat.mod_lt n (by omega)
      · rw [number_concat, hvalue]
        exact Nat.div_add_mod n b

/-- What is known of the characters of digits. -/
theorem IsDigit.check (hd : d < 16) (h : IsDigit c d) :
    alphanumeric? c = some d ∧ Blank.isBlank c = false ∧
      c ∉ ['_', '+', '-', '$', 'x', 'X'] ∧ (d < 10 → decimal? c = some d) := by
  have hall : ∀ d < 16, [d.digitChar, d.digitChar.toUpper].all (fun c => decide
      (alphanumeric? c = some d ∧ Blank.isBlank c = false ∧
        c ∉ ['_', '+', '-', '$', 'x', 'X'] ∧ (d < 10 → decimal? c = some d))) = true := by
    decide +kernel
  exact of_decide_eq_true (List.all_eq_true.1 (hall d hd) c (by simpa [IsDigit] using h))

theorem IsDigit.value? (hb : b ≤ 16) (hd : d < b) (h : IsDigit c d) : value? b c = some d := by
  unfold Digit.value?
  rw [(h.check (by omega)).1]
  simpa using hd

/-- Base ten has no letters. -/
theorem decimal?_of_value? (h : value? 10 c = some d) : decimal? c = some d := by
  obtain ⟨halpha, hlt⟩ := Option.filter_eq_some_iff.1 h
  unfold alphanumeric? at halpha
  cases hc : decimal? c with
  | some e =>
    rw [hc] at halpha
    exact halpha
  | none =>
    rw [hc] at halpha
    have hten : d < 10 := by simpa using hlt
    simp only at halpha
    split at halpha
    · cases halpha
      omega
    · split at halpha
      · cases halpha
        omega
      · cases halpha

theorem decimal?_of_isAlpha (h : c.isAlpha = true) : decimal? c = none := by
  have hall : ∀ n < 128, (Char.ofNat n).isAlpha = true → decimal? (Char.ofNat n) = none := by
    decide +kernel
  have hlt : c.toNat < 128 := by
    have hcase : c.isUpper = true ∨ c.isLower = true := Bool.or_eq_true_iff.1 h
    have hval : c.val ≤ 'z'.val := by
      rcases hcase with hupper | hlower
      · have hrange : c.val ≥ 'A'.val ∧ c.val ≤ 'Z'.val := of_decide_eq_true hupper
        exact UInt32.le_trans hrange.2 (by decide)
      · exact of_decide_eq_true (Bool.and_eq_true_iff.1 hlower).2
    exact Nat.lt_of_le_of_lt (UInt32.le_iff_toNat_le.1 hval) (by decide)
  have hc := hall c.toNat hlt
  rw [Char.ofNat_toNat] at hc
  exact hc h

end Digit

namespace Numeral

variable {b n acc : Nat} {c : Char} {cs pre post : List Char} {ds : List Nat}

/-! ## Rows of digits -/

/-- Zeros, then the digits of `n` in base `b`, with letters of either case. -/
def Spells (b n : Nat) (cs : List Char) : Prop :=
  ∃ zeros, List.Forall₂ (fun c x => c = x ∨ c = x.toUpper) cs
    (List.replicate zeros '0' ++ Nat.toDigits b n)

/-- The characters are digits in base `b`. -/
structure AreDigits (b : Nat) (cs : List Char) (ds : List Nat) : Prop where
  each : List.Forall₂ Digit.IsDigit cs ds
  small : ∀ d ∈ ds, d < b

theorem Spells.exists_digits (hb : 1 < b) (h : Spells b n cs) :
    ∃ ds, AreDigits b cs ds ∧ cs ≠ [] ∧ Digit.number b 0 ds = n := by
  obtain ⟨zeros, hcs⟩ := h
  obtain ⟨ds, hds, hlt, hvalue⟩ := Digit.exists_toDigits hb n
  have hmap : List.replicate zeros '0' ++ Nat.toDigits b n =
      (List.replicate zeros 0 ++ ds).map Nat.digitChar := by
    rw [hds, List.map_append, List.map_replicate]
    rfl
  refine ⟨List.replicate zeros 0 ++ ds, ⟨?_, ?_⟩, ?_, ?_⟩
  · rw [hmap, List.forall₂_map_right_iff] at hcs
    exact hcs
  · intro d hd
    rcases List.mem_append.1 hd with hd | hd
    · rw [List.eq_of_mem_replicate hd]
      omega
    · exact hlt d hd
  · rintro rfl
    have hnil := List.forall₂_nil_left_iff.1 hcs
    exact Nat.toDigits_ne_nil (List.append_eq_nil_iff.1 hnil).2
  · rw [Digit.number_replicate_zero, hvalue]

theorem AreDigits.exists_digit (h : AreDigits b cs ds) (hc : c ∈ cs) :
    ∃ d < b, Digit.IsDigit c d := by
  obtain ⟨hall, hsmall⟩ := h
  induction hall with
  | nil => cases hc
  | cons hd _ ih =>
    rcases List.mem_cons.1 hc with rfl | hc
    · exact ⟨_, hsmall _ List.mem_cons_self, hd⟩
    · exact ih hc fun d hd => hsmall d (List.mem_cons_of_mem _ hd)

theorem AreDigits.not_isBlank (hb : b ≤ 16) (h : AreDigits b cs ds) (hc : c ∈ cs) :
    Blank.isBlank c = false := by
  obtain ⟨d, hd, hdigit⟩ := h.exists_digit hc
  exact (hdigit.check (by omega)).2.1

/-- No digit is a sign, a mark or a separator. -/
theorem AreDigits.notMem (hb : b ≤ 16) (h : AreDigits b cs ds)
    (hc : c ∈ ['_', '+', '-', '$', 'x', 'X']) : c ∉ cs := by
  intro hmem
  obtain ⟨d, hd, hdigit⟩ := h.exists_digit hmem
  exact (hdigit.check (by omega)).2.2.1 hc

theorem tail?_cons (hc : c ≠ '_') (b acc : Nat) (cs : List Char) : tail? b acc (c :: cs) =
    match Digit.value? b c with
    | some d => tail? b (b * acc + d) cs
    | none => none := by
  rw [tail?.eq_def]
  split
  · next heq => cases heq
  · next heq =>
    cases heq
    exact absurd rfl hc
  · next heq =>
    cases heq
    rfl

theorem AreDigits.tail?_eq (hb : b ≤ 16) (h : AreDigits b cs ds) (acc : Nat) :
    tail? b acc cs = some (Digit.number b acc ds) := by
  obtain ⟨hall, hsmall⟩ := h
  induction hall generalizing acc with
  | nil => rfl
  | @cons c d cs ds hd _ ih =>
    have hlt := hsmall d List.mem_cons_self
    have hne : c ≠ '_' := by
      rintro rfl
      exact (hd.check (by omega)).2.2.1 List.mem_cons_self
    rw [tail?_cons hne, hd.value? hb hlt]
    exact ih _ fun e he => hsmall e (List.mem_cons_of_mem _ he)

theorem AreDigits.magnitude?_eq (hb : b ≤ 16) (h : AreDigits b cs ds) (hne : cs ≠ []) :
    magnitude? b cs = some (Digit.number b 0 ds) := by
  obtain ⟨hall, hsmall⟩ := h
  cases hall with
  | nil => exact absurd rfl hne
  | @cons c d cs ds hd hrest =>
    have hlt := hsmall d List.mem_cons_self
    have htail : AreDigits b cs ds := ⟨hrest, fun e he => hsmall e (List.mem_cons_of_mem _ he)⟩
    rw [magnitude?, hd.value? hb hlt]
    show tail? b d cs = _
    rw [htail.tail?_eq hb, Digit.number, Digit.number, List.foldl_cons, Nat.mul_zero, Nat.zero_add]

theorem dropMark_of_notMem (hx : 'x' ∉ cs) (hX : 'X' ∉ cs) : dropMark b cs = cs := by
  unfold dropMark
  split
  · rename_i z x rest
    rw [if_neg]
    rintro ⟨-, -, rfl | rfl⟩
    · exact hx (by simp)
    · exact hX (by simp)
  · rfl

theorem AreDigits.unsigned?_eq (hb : b ≤ 16) (h : AreDigits b cs ds) (hne : cs ≠ []) :
    unsigned? b cs = some (Digit.number b 0 ds) := by
  unfold unsigned?
  rw [dropMark_of_notMem (h.notMem hb (by simp)) (h.notMem hb (by simp)), h.magnitude?_eq hb hne]

/-- The mark of base sixteen is skipped. -/
theorem AreDigits.unsigned?_marked (h : AreDigits 16 cs ds) (hne : cs ≠ []) {x : Char}
    (hx : x = 'x' ∨ x = 'X') : unsigned? 16 ('0' :: x :: cs) = some (Digit.number 16 0 ds) := by
  have hzero : Digit.decimal? '0' = some 0 := by decide
  have hmark : dropMark 16 ('0' :: x :: cs) = cs := by
    have hif : 16 = 16 ∧ Digit.decimal? '0' = some 0 ∧ (x = 'x' ∨ x = 'X') := ⟨rfl, hzero, hx⟩
    refine (if_pos hif).trans ?_
    split
    · have hapart : '_' ∈ ['_', '+', '-', '$', 'x', 'X'] := List.mem_cons_self
      exact absurd List.mem_cons_self (h.notMem (Nat.le_refl 16) hapart)
    · rfl
  unfold unsigned?
  rw [hmark, h.magnitude?_eq (Nat.le_refl 16) hne]

/-! ## Signs -/

/-- What may stand in front of the digits of the number's size. -/
def IsSign (n : Int) (sign : List Char) : Prop :=
  0 ≤ n ∧ (sign = [] ∨ sign = ['+']) ∨ n ≤ 0 ∧ sign = ['-']

/-- A number of either sign in base `b`. -/
structure Writes (b : Nat) (n : Int) (sign cs : List Char) : Prop where
  isSign : IsSign n sign
  spells : Spells b n.natAbs cs

theorem signed?_of_notMem (hminus : '-' ∉ cs) (hplus : '+' ∉ cs) :
    signed? b cs = (unsigned? b cs).map Int.ofNat := by
  unfold signed?
  split
  · exact absurd List.mem_cons_self hminus
  · exact absurd List.mem_cons_self hplus
  · rfl

theorem AreDigits.signed?_eq {n : Int} {sign : List Char} (hb : b ≤ 16) (h : AreDigits b cs ds)
    (hne : cs ≠ []) (hsign : IsSign n sign) (hvalue : Digit.number b 0 ds = n.natAbs) :
    signed? b (sign ++ cs) = some n := by
  have hunsigned : unsigned? b cs = some n.natAbs := by rw [h.unsigned?_eq hb hne, hvalue]
  rcases hsign with ⟨h0, rfl | rfl⟩ | ⟨h0, rfl⟩
  · rw [List.nil_append, signed?_of_notMem (h.notMem hb (by simp)) (h.notMem hb (by simp)),
      hunsigned]
    exact congrArg some (Int.natAbs_of_nonneg h0)
  · show (unsigned? b cs).map Int.ofNat = some n
    rw [hunsigned]
    exact congrArg some (Int.natAbs_of_nonneg h0)
  · show ((unsigned? b cs).map fun k => -(k : Int)) = some n
    rw [hunsigned]
    exact congrArg some (show -(n.natAbs : Int) = n by omega)

theorem AreDigits.not_isBlank_append {sign : List Char} {n : Int} (hb : b ≤ 16)
    (h : AreDigits b cs ds) (hsign : IsSign n sign) :
    ∀ c ∈ sign ++ cs, Blank.isBlank c = false := by
  have hplus : Blank.isBlank '+' = false := by decide
  have hminus : Blank.isBlank '-' = false := by decide
  intro c hc
  rcases List.mem_append.1 hc with hc | hc
  · rcases hsign with ⟨-, rfl | rfl⟩ | ⟨-, rfl⟩
    · cases hc
    · rwa [List.mem_singleton.1 hc]
    · rwa [List.mem_singleton.1 hc]
  · exact h.not_isBlank hb hc

/-! ## Literals -/

theorem read?_of_not_isBlank (h : ∀ c ∈ cs, Blank.isBlank c = false) :
    read? b cs = signed? b cs := by
  have htrimmed : Blank.Trimmed Blank.isMargin cs :=
    (Blank.trimmed_of_forall h).mono fun c => Blank.isBlank_of_isMargin
  unfold read?
  rw [htrimmed.trim_eq]

theorem Writes.read?_eq {n : Int} {sign : List Char} (hb : 1 < b) (hb' : b ≤ 16)
    (h : Writes b n sign cs) : read? b (sign ++ cs) = some n := by
  obtain ⟨ds, hds, hne, hvalue⟩ := h.spells.exists_digits hb
  rw [read?_of_not_isBlank (hds.not_isBlank_append hb' h.isSign),
    hds.signed?_eq hb' hne h.isSign hvalue]

theorem spells_zeroPad (w n : Nat) : Spells 16 n (Hex.zeroPad w (Hex.digits n)) := by
  refine ⟨w - (Hex.digits n).length, List.rel_append ?_ ?_⟩
  · exact List.forall₂_same.2 fun _ _ => .inl rfl
  · exact List.forall₂_map_left_iff.2 (List.forall₂_same.2 fun _ _ => .inr rfl)

/-- Hexadecimal numbers are read back, whatever the width that they were padded to. -/
theorem read?_padded (w : Nat) (n : Int) : read? 16 (Hex.padded w n).toList = some n := by
  have hsixteen : 1 < 16 := by decide
  rw [Hex.toList_padded]
  by_cases hn : n < 0
  · have hwrites : Writes 16 n ['-'] (Hex.zeroPad (w - 1) (Hex.digits n.natAbs)) :=
      ⟨.inr ⟨Int.le_of_lt hn, rfl⟩, spells_zeroPad _ _⟩
    rw [if_pos hn]
    exact hwrites.read?_eq hsixteen (Nat.le_refl 16)
  · have hwrites : Writes 16 n [] (Hex.zeroPad w (Hex.digits n.natAbs)) :=
      ⟨.inl ⟨Int.not_lt.1 hn, .inl rfl⟩, spells_zeroPad _ _⟩
    have hread := hwrites.read?_eq hsixteen (Nat.le_refl 16)
    rw [if_neg hn]
    rwa [List.nil_append] at hread

theorem separates_of_notMem (h : '_' ∉ cs) : separates cs = true := by
  fun_induction separates cs with
  | case1 => rfl
  | case2 cs => exact absurd List.mem_cons_self h
  | case3 => rfl
  | case4 c cs => simp at h
  | case5 c cs hc hcs hnext ih => exact ih fun hmem => h (List.mem_cons_of_mem c hmem)

theorem dropSign_of_notMem (hminus : '-' ∉ cs) (hplus : '+' ∉ cs) : dropSign cs = cs := by
  unfold dropSign
  split
  · exact absurd List.mem_cons_self hminus
  · exact absurd List.mem_cons_self hplus
  · rfl

/-- The length of a decimal number is that of its digits. -/
theorem Writes.leadingDigits_eq {n : Int} {sign : List Char} (h : Writes 10 n sign cs) :
    leadingDigits (sign ++ cs) = cs.length := by
  have hten : 10 ≤ 16 := by decide
  obtain ⟨ds, hds, hne, -⟩ := h.spells.exists_digits (by decide)
  have htrimmed : Blank.Trimmed Blank.isMargin (sign ++ cs) :=
    (Blank.trimmed_of_forall (hds.not_isBlank_append hten h.isSign)).mono
      fun c => Blank.isBlank_of_isMargin
  have hsign : dropSign (sign ++ cs) = cs := by
    rcases h.isSign with ⟨-, rfl | rfl⟩ | ⟨-, rfl⟩
    · exact dropSign_of_notMem (hds.notMem hten (by simp)) (hds.notMem hten (by simp))
    · rfl
    · rfl
  have hrun : cs.takeWhile (fun c => c == '_' || (Digit.decimal? c).isSome) = cs := by
    apply List.takeWhile_eq_self_iff.2
    intro c hc
    obtain ⟨d, hd, hdigit⟩ := hds.exists_digit hc
    rw [(hdigit.check (by omega)).2.2.2 hd]
    simp
  have hapart : '_' ∉ cs := hds.notMem hten (by simp)
  unfold leadingDigits
  rw [htrimmed.trim_eq, hsign]
  simp only [hrun]
  rw [if_pos (separates_of_notMem hapart), List.countP_eq_length]
  intro c hc
  simpa using ne_of_mem_of_not_mem hc hapart

/-! ## Marks -/

/-- The text begins with a mark of base sixteen. -/
def Marked (cs : List Char) : Prop :=
  ['0', 'x'] <+: cs ∨ ['0', 'X'] <+: cs ∨ ['$'] <+: cs

theorem literalOf_of_not_marked (h : ¬ Marked cs) : literalOf cs = (10, cs) := by
  unfold literalOf
  split
  · exact absurd (.inl ⟨_, rfl⟩) h
  · exact absurd (.inr (.inl ⟨_, rfl⟩)) h
  · exact absurd (.inr (.inr ⟨_, rfl⟩)) h
  · rfl

theorem not_marked_of_notMem (hx : 'x' ∉ cs) (hX : 'X' ∉ cs) (hdollar : '$' ∉ cs) :
    ¬ Marked cs := by
  rintro (h | h | h)
  · exact hx (h.subset (by simp))
  · exact hX (h.subset (by simp))
  · exact hdollar (h.subset (by simp))

/-- Blanks around a literal are not looked at. -/
theorem parse_surrounded (hpre : ∀ c ∈ pre, Blank.isBlank c = true)
    (hpost : ∀ c ∈ post, Blank.isBlank c = true) (hcs : ∀ c ∈ cs, Blank.isBlank c = false)
    (hne : cs ≠ []) : parse (String.ofList (pre ++ cs ++ post)) =
      read (literalOf cs).1 (String.ofList (literalOf cs).2) := by
  have htrim : Blank.trim Blank.isBlank (pre ++ cs ++ post) = cs :=
    (Blank.trimmed_of_forall hcs).trim_append hne hpre hpost
  unfold parse
  rw [String.toList_ofList, htrim]

theorem read_sixteen {n : Int} (h : read? 16 cs = some n) : read 16 (String.ofList cs) = .ok n := by
  unfold read
  rw [String.toList_ofList, h]
  rfl

section

variable {n : Int} {k : Nat} {sign : List Char} (hpre : ∀ c ∈ pre, Blank.isBlank c = true)
  (hpost : ∀ c ∈ post, Blank.isBlank c = true)

include hpre hpost

theorem parse_decimal (h : Writes 10 n sign cs) :
    parse (String.ofList (pre ++ (sign ++ cs) ++ post)) =
      if maxDigits < cs.length then .error (.tooLong cs.length) else .ok n := by
  have hten : 10 ≤ 16 := by decide
  obtain ⟨ds, hds, hne, -⟩ := h.spells.exists_digits (by decide)
  have hother {c : Char} (hc : c ∈ ['_', '+', '-', '$', 'x', 'X']) (hc' : c ∉ sign) :
      c ∉ sign ++ cs := by
    rw [List.mem_append, not_or]
    exact ⟨hc', hds.notMem hten hc⟩
  have hsign : 'x' ∉ sign ∧ 'X' ∉ sign ∧ '$' ∉ sign := by
    rcases h.isSign with ⟨-, rfl | rfl⟩ | ⟨-, rfl⟩ <;> decide
  have hmarked : ¬ Marked (sign ++ cs) := not_marked_of_notMem (hother (by simp) hsign.1)
    (hother (by simp) hsign.2.1) (hother (by simp) hsign.2.2)
  rw [parse_surrounded hpre hpost (hds.not_isBlank_append hten h.isSign)
    (List.append_ne_nil_of_right_ne_nil _ hne), literalOf_of_not_marked hmarked]
  unfold read
  rw [String.toList_ofList, h.leadingDigits_eq, h.read?_eq (by decide) hten]
  simp

theorem parse_marked (h : Spells 16 k cs) {x : Char} (hx : x = 'x' ∨ x = 'X') :
    parse (String.ofList (pre ++ '0' :: x :: cs ++ post)) = .ok (k : Int) := by
  obtain ⟨ds, hds, hne, hvalue⟩ := h.exists_digits (by decide)
  have hblank : ∀ c ∈ '0' :: x :: cs, Blank.isBlank c = false := by
    intro c hc
    simp only [List.mem_cons] at hc
    rcases hc with rfl | rfl | hc
    · decide
    · rcases hx with rfl | rfl <;> decide
    · exact hds.not_isBlank (Nat.le_refl 16) hc
  have hliteral : literalOf ('0' :: x :: cs) = (16, '0' :: x :: cs) := by
    rcases hx with rfl | rfl <;> rfl
  have hread : read? 16 ('0' :: x :: cs) = some (k : Int) := by
    rw [read?_of_not_isBlank hblank]
    show (unsigned? 16 ('0' :: x :: cs)).map Int.ofNat = some (k : Int)
    rw [hds.unsigned?_marked hne hx, hvalue]
    rfl
  rw [parse_surrounded hpre hpost hblank (List.cons_ne_nil _ _), hliteral]
  exact read_sixteen hread

theorem parse_dollar (h : Writes 16 n sign cs) :
    parse (String.ofList (pre ++ '$' :: (sign ++ cs) ++ post)) = .ok n := by
  obtain ⟨ds, hds, -, -⟩ := h.spells.exists_digits (by decide)
  have hdollar : Blank.isBlank '$' = false := by decide
  have hblank : ∀ c ∈ '$' :: (sign ++ cs), Blank.isBlank c = false :=
    List.forall_mem_cons.2 ⟨hdollar, hds.not_isBlank_append (Nat.le_refl 16) h.isSign⟩
  rw [parse_surrounded hpre hpost hblank (List.cons_ne_nil _ _)]
  exact read_sixteen (h.read?_eq (by decide) (Nat.le_refl 16))

end

/-! ## What is read in base ten -/

/-- The text without the underscores between its digits. -/
def bare (cs : List Char) : List Char :=
  cs.filter (· ≠ '_')

theorem bare_cons (h : Digit.value? b c = some n) (cs : List Char) :
    bare (c :: cs) = c :: bare cs := by
  have hunderscore : Digit.alphanumeric? '_' = none := by decide
  have hne : c ≠ '_' := by
    rintro rfl
    rw [Digit.value?, hunderscore] at h
    cases h
  exact List.filter_cons_of_pos (decide_eq_true hne)

theorem exists_digits_of_tail? (h : tail? b acc cs = some n) :
    ∃ ds : List Nat, (bare cs).map (Digit.value? b) = ds.map some ∧ Digit.number b acc ds = n := by
  fun_induction tail? b acc cs with
  | case1 acc => exact ⟨[], rfl, Option.some.inj h⟩
  | case2 acc c cs d hd ih =>
    obtain ⟨ds, hds, hn⟩ := ih h
    refine ⟨d :: ds, ?_, hn⟩
    show (bare (c :: cs)).map (Digit.value? b) = _
    rw [bare_cons hd, List.map_cons, hd, hds, List.map_cons]
  | case3 acc c cs hd => cases h
  | case4 acc c cs hcs d hd ih =>
    obtain ⟨ds, hds, hn⟩ := ih h
    exact ⟨d :: ds, by rw [bare_cons hd, List.map_cons, hd, hds, List.map_cons], hn⟩
  | case5 acc c cs hcs hd => cases h

theorem decimals_of_values {ds : List Nat} (h : cs.map (Digit.value? 10) = ds.map some) :
    cs.map Digit.decimal? = ds.map some := by
  rw [← h]
  apply List.map_congr_left
  intro c hc
  have hvalue : Digit.value? 10 c ∈ ds.map some := h ▸ List.mem_map_of_mem hc
  obtain ⟨d, -, hd⟩ := List.mem_map.1 hvalue
  rw [← hd, Digit.decimal?_of_value? hd.symm]

/-- Besides its sign and underscores, the text is a row of decimal digits of the number. -/
def IsDecimal (n : Int) (cs : List Char) : Prop :=
  ∃ (sign body : List Char) (ds : List Nat), cs = sign ++ body ∧ IsSign n sign ∧ ds ≠ [] ∧
    (bare body).map Digit.decimal? = ds.map some ∧ Digit.number 10 0 ds = n.natAbs

theorem exists_digits_of_unsigned? (h : unsigned? 10 cs = some n) :
    ∃ ds : List Nat, ds ≠ [] ∧ (bare cs).map Digit.decimal? = ds.map some ∧
      Digit.number 10 0 ds = n := by
  have hmark : dropMark 10 cs = cs := by
    unfold dropMark
    split
    · exact if_neg fun hten => absurd hten.1 (by decide)
    · rfl
  unfold unsigned? at h
  rw [hmark] at h
  cases cs with
  | nil => cases h
  | cons c cs =>
    unfold magnitude? at h
    cases hd : Digit.value? 10 c with
    | none =>
      simp only [hd] at h
      cases h
    | some d =>
      simp only [hd] at h
      obtain ⟨ds, hds, hn⟩ := exists_digits_of_tail? h
      refine ⟨d :: ds, List.cons_ne_nil d ds, ?_, ?_⟩
      · apply decimals_of_values
        rw [bare_cons hd, List.map_cons, hd, hds, List.map_cons]
      · rw [← hn, Digit.number, Digit.number, List.foldl_cons, Nat.mul_zero, Nat.zero_add]

theorem isDecimal_of_unsigned? {m : Int} {sign : List Char} (hsign : IsSign m sign)
    (h : unsigned? 10 cs = some m.natAbs) : IsDecimal m (sign ++ cs) := by
  obtain ⟨ds, hne, hds, hvalue⟩ := exists_digits_of_unsigned? h
  exact ⟨sign, cs, ds, rfl, hsign, hne, hds, hvalue⟩

theorem isDecimal_of_signed? {m : Int} (h : signed? 10 cs = some m) : IsDecimal m cs := by
  unfold signed? at h
  split at h <;> rename_i cs
  · cases hu : unsigned? 10 cs with
    | none =>
      rw [hu] at h
      cases h
    | some k =>
      rw [hu] at h
      cases h
      have hsign : IsSign (-(k : Int)) ['-'] := .inr ⟨by omega, rfl⟩
      exact isDecimal_of_unsigned? hsign (by rw [hu, Int.natAbs_neg, Int.natAbs_natCast])
  · obtain ⟨k, hk, rfl⟩ := Option.map_eq_some_iff.1 h
    have hsign : IsSign k ['+'] := .inl ⟨Int.natCast_nonneg k, .inr rfl⟩
    exact isDecimal_of_unsigned? hsign hk
  · obtain ⟨k, hk, rfl⟩ := Option.map_eq_some_iff.1 h
    have hsign : IsSign k [] := .inl ⟨Int.natCast_nonneg k, .inl rfl⟩
    exact isDecimal_of_unsigned? hsign hk

/-- A text without a mark is read in base ten, if it is read at all. -/
theorem isDecimal_of_parse {m : Int} {text : String}
    (hmark : ¬ Marked (Blank.trim Blank.isBlank text.toList)) (h : parse text = .ok m) :
    IsDecimal m (Blank.trim Blank.isBlank text.toList) := by
  unfold parse at h
  rw [literalOf_of_not_marked hmark] at h
  simp only [read, String.toList_ofList] at h
  split at h
  · cases h
  · cases hread : read? 10 (Blank.trim Blank.isBlank text.toList) with
    | none =>
      rw [hread] at h
      cases h
    | some k =>
      rw [hread] at h
      cases h
      have htrimmed := (Blank.trimmed_trim Blank.isBlank text.toList).mono
        fun c => Blank.isBlank_of_isMargin
      unfold read? at hread
      rw [htrimmed.trim_eq] at hread
      exact isDecimal_of_signed? hread

/-- There are no letters in a decimal number. -/
theorem IsDecimal.not_isAlpha {m : Int} (h : IsDecimal m cs) (hc : c ∈ cs) : c.isAlpha = false := by
  obtain ⟨sign, body, ds, rfl, hsign, -, hds, -⟩ := h
  rcases List.mem_append.1 hc with hc | hc
  · rcases hsign with ⟨-, rfl | rfl⟩ | ⟨-, rfl⟩
    · cases hc
    · rw [List.mem_singleton.1 hc]
      decide
    · rw [List.mem_singleton.1 hc]
      decide
  · by_cases hunderscore : c = '_'
    · rw [hunderscore]
      decide
    · have hbare : c ∈ bare body := List.mem_filter.2 ⟨hc, decide_eq_true hunderscore⟩
      have hvalue : Digit.decimal? c ∈ ds.map some := hds ▸ List.mem_map_of_mem hbare
      obtain ⟨d, -, hd⟩ := List.mem_map.1 hvalue
      rw [Bool.eq_false_iff]
      intro halpha
      rw [Digit.decimal?_of_isAlpha halpha] at hd
      cases hd

/-- Numbers are read back from every notation, whatever blanks are around them. These are decimal
digits with an optional sign (up to the limit on their number), hexadecimal digits after `0x` or
`0X`, and hexadecimal digits with an optional sign after `$`. There may be zeros in front of the
digits, and letters are of either case. The beginning of the text alone chooses the base: without a
mark of base sixteen, a text that is read at all is a decimal number, and one that has a letter in
it is refused. -/
theorem numerals_round_trip {pre post : List Char} (hpre : ∀ c ∈ pre, Blank.isBlank c = true)
    (hpost : ∀ c ∈ post, Blank.isBlank c = true) :
    (∀ (n : Int) (sign cs : List Char), Writes 10 n sign cs →
      parse (String.ofList (pre ++ (sign ++ cs) ++ post)) =
        if maxDigits < cs.length then .error (.tooLong cs.length) else .ok n) ∧
    (∀ (n : Nat) (x : Char) (cs : List Char), x = 'x' ∨ x = 'X' → Spells 16 n cs →
      parse (String.ofList (pre ++ '0' :: x :: cs ++ post)) = .ok (n : Int)) ∧
    (∀ (n : Int) (sign cs : List Char), Writes 16 n sign cs →
      parse (String.ofList (pre ++ '$' :: (sign ++ cs) ++ post)) = .ok n) ∧
    ∀ text : String, ¬ Marked (Blank.trim Blank.isBlank text.toList) →
      (∀ n, parse text = .ok n → IsDecimal n (Blank.trim Blank.isBlank text.toList)) ∧
      ∀ c ∈ Blank.trim Blank.isBlank text.toList, c.isAlpha = true →
        ∃ e, parse text = .error e := by
  refine ⟨fun n sign cs => parse_decimal hpre hpost, fun n x cs hx h =>
    parse_marked hpre hpost h hx, fun n sign cs => parse_dollar hpre hpost, fun text hmark => ?_⟩
  refine ⟨fun n => isDecimal_of_parse hmark, fun c hc halpha => ?_⟩
  cases hread : parse text with
  | error e => exact ⟨e, rfl⟩
  | ok n =>
    have hnot := (isDecimal_of_parse hmark hread).not_isAlpha hc
    rw [halpha] at hnot
    cases hnot

/-- Every notation between a line break and a wide space, and two texts that name no base. -/
theorem numerals_round_trip_spaced :
    (∀ c ∈ ['\n'], Blank.isBlank c = true) ∧ (∀ c ∈ ['\u3000'], Blank.isBlank c = true) ∧
      Writes 10 (-120) ['-'] ['0', '1', '2', '0'] ∧ parse "\n-0120\u3000" = .ok (-120) ∧
      Spells 16 0xAB ['0', 'a', 'B'] ∧ parse "\n0X0aB\u3000" = .ok 0xAB ∧
      Writes 16 (-0xAB) ['-'] ['0', 'a', 'B'] ∧ parse "\n$-0aB\u3000" = .ok (-0xAB) ∧
      ¬ Marked (Blank.trim Blank.isBlank "\n-0x1F".toList) ∧ (∃ e, parse "\n-0x1F" = .error e) ∧
      ¬ Marked (Blank.trim Blank.isBlank "AB".toList) ∧ ∃ e, parse "AB" = .error e := by
  have hpre : ∀ c ∈ ['\n'], Blank.isBlank c = true := List.forall_mem_singleton.2 (by decide)
  have hpost : ∀ c ∈ ['\u3000'], Blank.isBlank c = true := List.forall_mem_singleton.2 (by decide)
  have hupper : (Nat.digitChar 11).toUpper = 'B' := by decide
  have hdecimal : Spells 10 120 ['0', '1', '2', '0'] := ⟨1, by simp [Nat.toDigits_eq_if]⟩
  have hhex : Spells 16 0xAB ['0', 'a', 'B'] := ⟨1, by simp [Nat.toDigits_eq_if, hupper]⟩
  have hminus : Writes 10 (-120) ['-'] ['0', '1', '2', '0'] := ⟨.inr ⟨by decide, rfl⟩, hdecimal⟩
  have hminus' : Writes 16 (-0xAB) ['-'] ['0', 'a', 'B'] := ⟨.inr ⟨by decide, rfl⟩, hhex⟩
  have htrim : Blank.trim Blank.isBlank "\n-0x1F".toList = ['-', '0', 'x', '1', 'F'] := by decide
  have htrim' : Blank.trim Blank.isBlank "AB".toList = ['A', 'B'] := by decide
  have hmark : ¬ Marked ['-', '0', 'x', '1', 'F'] := by simp [Marked]
  have hmark' : ¬ Marked ['A', 'B'] := by simp [Marked]
  have hten : "\n-0120\u3000" =
      String.ofList (['\n'] ++ (['-'] ++ ['0', '1', '2', '0']) ++ ['\u3000']) := rfl
  have hsixteen : "\n0X0aB\u3000" =
      String.ofList (['\n'] ++ '0' :: 'X' :: ['0', 'a', 'B'] ++ ['\u3000']) := rfl
  have hdollar : "\n$-0aB\u3000" =
      String.ofList (['\n'] ++ '$' :: (['-'] ++ ['0', 'a', 'B']) ++ ['\u3000']) := rfl
  obtain ⟨hdecimals, hmarked, hsigned, htext⟩ := numerals_round_trip hpre hpost
  rw [htrim, htrim', hten, hsixteen, hdollar]
  refine ⟨hpre, hpost, hminus, ?_, hhex, ?_, hminus', ?_, hmark, ?_, hmark', ?_⟩
  · exact (hdecimals _ _ _ hminus).trans (if_neg (by decide))
  · exact hmarked _ _ _ (.inr rfl) hhex
  · exact hsigned _ _ _ hminus'
  · exact (htext _ (htrim ▸ hmark)).2 'x' (by rw [htrim]; decide) (by decide)
  · exact (htext _ (htrim' ▸ hmark')).2 'A' (by rw [htrim']; decide) (by decide)

end Numeral

end Chip8
