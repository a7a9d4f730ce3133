import Chip8.Proofs.Failing

/-!
# Keys with a number

The keys of the pad are the sixteen digits, and letters may be of either case. A key `Names` a
number if its text is one of them, alone; the number is the place of the digit. Whatever else is
held has no number, and this is what fails the three instructions that ask for the key, and all that
does (`execute_asking_eq_error_iff`).
-/

namespace Chip8

namespace Key

/-- The characters that are keys of the pad. -/
def pad : List Char :=
  digits ++ ['A', 'B', 'C', 'D', 'E', 'F']

/-- The key is a single digit, in either case, and `v` is the place of that digit. -/
def Names (k : Key) (v : UInt8) : Prop :=
  ∃ c, k = .text (String.singleton c) ∧ digits[v.toNat]? = some c.toLower

/-- The key is a single character of the pad. -/
def OnPad (k : Key) : Prop :=
  ∃ c ∈ pad, k = .text (String.singleton c)

variable {k : Key} {v w : UInt8} {c : Char}

/-! ## Characters -/

/-- The number of a single character, by the ranges in which the digits lie. -/
def digitValue? (c : Char) : Option UInt8 :=
  if '0' ≤ c ∧ c ≤ '9' then some (UInt8.ofNat (c.toNat - '0'.toNat))
  else if 'a' ≤ c ∧ c ≤ 'f' then some (UInt8.ofNat (c.toNat - 'a'.toNat + 10))
  else if 'A' ≤ c ∧ c ≤ 'F' then some (UInt8.ofNat (c.toNat - 'A'.toNat + 10))
  else none

theorem place_inj (hv : digits[v.toNat]? = some c) (hw : digits[w.toNat]? = some c) : v = w := by
  have hnodup : digits.Nodup := by decide
  obtain ⟨hlt, -⟩ := List.getElem?_eq_some_iff.1 hv
  exact UInt8.toNat_inj.1 ((List.getElem?_inj hlt hnodup).1 (hv.trans hw.symm))

/-- What is not among the first 128 characters is no digit, and in no case. -/
theorem digitValue?_of_le (h : 128 ≤ c.toNat) : digitValue? c = none := by
  have hfar {d : Char} (hd : d.toNat < 128) : ¬ c ≤ d := by
    rw [Char.le_def, UInt32.le_iff_toNat_le]
    exact fun hle => absurd (Nat.le_trans h hle) (Nat.not_le.2 hd)
  unfold digitValue?
  rw [if_neg fun hc => hfar (by decide) hc.2, if_neg fun hc => hfar (by decide) hc.2,
    if_neg fun hc => hfar (by decide) hc.2]

theorem toLower_of_le (h : 128 ≤ c.toNat) : c.toLower = c := by
  have hfar : ¬ c.val ≤ 'Z'.val := by
    rw [UInt32.le_iff_toNat_le]
    exact fun hle => absurd (Nat.le_trans h hle) (by decide)
  unfold Char.toLower
  exact dif_neg fun hc => hfar hc.2

theorem lt_of_mem_pad : ∀ c ∈ pad, c.toNat < 128 := by
  simp [pad, digits]

theorem ascii_digitValue? : ∀ n < 128,
    (∀ v ∈ digitValue? (Char.ofNat n), digits[v.toNat]? = some (Char.ofNat n).toLower) ∧
      ((digitValue? (Char.ofNat n)).isSome ↔ Char.ofNat n ∈ pad) ∧
      ((Char.ofNat n).toLower ∈ digits → Char.ofNat n ∈ pad) := by
  decide +kernel

theorem place_of_digitValue? (h : digitValue? c = some v) : digits[v.toNat]? = some c.toLower := by
  by_cases hc : c.toNat < 128
  · have hplace := (ascii_digitValue? c.toNat hc).1
    rw [Char.ofNat_toNat] at hplace
    exact hplace v h
  · rw [digitValue?_of_le (Nat.not_lt.1 hc)] at h
    cases h

theorem isSome_digitValue?_iff : (digitValue? c).isSome ↔ c ∈ pad := by
  by_cases hc : c.toNat < 128
  · have hpad := (ascii_digitValue? c.toNat hc).2.1
    rwa [Char.ofNat_toNat] at hpad
  · rw [digitValue?_of_le (Nat.not_lt.1 hc)]
    exact ⟨(nomatch ·), fun hmem => absurd (lt_of_mem_pad c hmem) hc⟩

theorem mem_pad_of_toLower (h : c.toLower ∈ digits) : c ∈ pad := by
  by_cases hc : c.toNat < 128
  · have hpad := (ascii_digitValue? c.toNat hc).2.2
    rw [Char.ofNat_toNat] at hpad
    exact hpad h
  · rw [toLower_of_le (Nat.not_lt.1 hc)] at h
    exact List.mem_append_left _ h

/-- The number of a character is the place of its lower case among the digits. -/
theorem digitValue?_eq_some_iff : digitValue? c = some v ↔ digits[v.toNat]? = some c.toLower := by
  refine ⟨place_of_digitValue?, fun h => ?_⟩
  have hsome := isSome_digitValue?_iff.2 (mem_pad_of_toLower (List.mem_of_getElem? h))
  obtain ⟨w, hw⟩ := Option.isSome_iff_exists.1 hsome
  rw [hw, place_inj (place_of_digitValue? hw) h]

/-! ## Keys -/

theorem place?_singleton_eq_none {cs : List Char} (h : c ∉ cs) : place? [c] cs = none := by
  induction cs with
  | nil => rfl
  | cons d cs ih =>
    have hne : c ≠ d := fun heq => h (heq ▸ List.mem_cons_self)
    have hfirst : ¬ [c].isPrefixOf (d :: cs) = true := by simp [hne]
    rw [place?, if_neg hfirst, ih fun hmem => h (List.mem_cons_of_mem d hmem)]
    rfl

theorem ascii_place? : ∀ n < 128,
    (place? [(Char.ofNat n).toLower] digits).map UInt8.ofNat = digitValue? (Char.ofNat n) := by
  decide +kernel

theorem map_place?_toLower (c : Char) :
    (place? [c.toLower] digits).map UInt8.ofNat = digitValue? c := by
  by_cases hc : c.toNat < 128
  · have hplace := ascii_place? c.toNat hc
    rwa [Char.ofNat_toNat] at hplace
  · have hfar := Nat.not_lt.1 hc
    have hdigit : c ∉ digits := fun hmem => hc (lt_of_mem_pad c (List.mem_append_left _ hmem))
    rw [toLower_of_le hfar, place?_singleton_eq_none hdigit, digitValue?_of_le hfar]
    rfl

theorem value?_singleton (c : Char) : value? (.text (String.singleton c)) = digitValue? c := by
  have hlower : (String.singleton c).toLower.toList = [c.toLower] := by
    show ((String.singleton c).map Char.toLower).toList = [c.toLower]
    rw [String.toList_map, String.toList_singleton]
    rfl
  rw [value?, if_neg (by simp), hlower, map_place?_toLower]

theorem exists_digit_of_value? (h : k.value? = some v) :
    ∃ c, k = .text (String.singleton c) ∧ digitValue? c = some v := by
  cases k with
  | unnamed => cases h
  | text s =>
    by_cases hlength : s.length = 1
    · obtain ⟨c, hc⟩ := List.length_eq_one_iff.1 (String.length_toList.trans hlength)
      obtain rfl : s = String.singleton c := String.toList_inj.1 (by simp [hc])
      exact ⟨c, rfl, (value?_singleton c).symm.trans h⟩
    · rw [value?, if_pos hlength] at h
      cases h

theorem value?_eq_some_iff : k.value? = some v ↔ k.Names v := by
  constructor
  · intro h
    obtain ⟨c, rfl, hc⟩ := exists_digit_of_value? h
    exact ⟨c, rfl, digitValue?_eq_some_iff.1 hc⟩
  · rintro ⟨c, rfl, hc⟩
    rw [value?_singleton]
    exact digitValue?_eq_some_iff.2 hc

theorem value?_eq_none_iff : k.value? = none ↔ ¬ k.OnPad := by
  rw [← Option.not_isSome_iff_eq_none, not_iff_not, Option.isSome_iff_exists]
  constructor
  · rintro ⟨v, hv⟩
    obtain ⟨c, rfl, hc⟩ := exists_digit_of_value? hv
    exact ⟨c, isSome_digitValue?_iff.1 (by rw [hc]; rfl), rfl⟩
  · rintro ⟨c, hc, rfl⟩
    rw [value?_singleton]
    exact Option.isSome_iff_exists.1 (isSome_digitValue?_iff.2 hc)

theorem Names.unique (hv : k.Names v) (hw : k.Names w) : v = w := by
  rw [← value?_eq_some_iff] at hv hw
  exact Option.some.inj (hv.symm.trans hw)

end Key

/-! ## The keypad -/

namespace Keypad

variable {p : Keypad} {k : Key} {v : UInt8}

/-- Nothing is held, or a key of the pad. -/
def Readable (p : Keypad) : Prop :=
  ∀ k, p.held = some k → k.OnPad

theorem nibble_of_none (h : p.held = none) : p.nibble = .ok none := by
  unfold nibble
  rw [h]

theorem nibble_of_names (h : p.held = some k) (hv : k.Names v) : p.nibble = .ok (some v) := by
  unfold nibble
  simp only [h, Key.value?_eq_some_iff.2 hv]

/-- A keypad that is readable is read. -/
theorem Readable.cases (hp : p.Readable) :
    p.held = none ∨ ∃ k v, p.held = some k ∧ k.Names v := by
  cases hk : p.held with
  | none => exact .inl rfl
  | some k =>
    cases hv : k.value? with
    | none => exact absurd (hp k hk) (Key.value?_eq_none_iff.1 hv)
    | some v => exact .inr ⟨k, v, rfl, Key.value?_eq_some_iff.1 hv⟩

end Keypad

/-! ## Instructions that ask for the key -/

/-- The opcodes that ask for the key that is held. -/
def Op.Reg.asking : List Op.Reg :=
  [.skipKey, .skipNoKey, .waitKey]

namespace Machine

variable {m m' : Machine} {op : Op.Reg} {x : Fin 16} {e : Failure}

theorem heldKey_of_nibble {v : Option UInt8} (h : m.keypad.nibble = .ok v) :
    heldKey m = .ok v m := by
  rw [heldKey_apply, h]

/-- They fail on a key that is not on the pad, on nothing else, and change nothing then. -/
theorem execute_asking_eq_error_iff (hop : op ∈ Op.Reg.asking) :
    execute (.reg op x.val) m = .error e m' ↔
      ∃ k, m.keypad.held = some k ∧ ¬ k.OnPad ∧ e = .fault (.invalidKey k) ∧ m' = m := by
  constructor
  · intro h
    have hfails : Fails m (.reg op x.val) e m' := fails_of_executeReg h
    generalize hi : Instr.reg op x.val = i at hfails
    cases hfails with
    | key _ _ k _ hk hv => exact ⟨k, hk, Key.value?_eq_none_iff.1 hv, rfl, rfl⟩
    | sprite | decimal | dump | load =>
      obtain ⟨rfl, -⟩ := Instr.reg.inj hi
      exact absurd hop (by decide)
    | underflow | overflow | draw => cases hi
  · rintro ⟨k, hk, hpad, rfl, rfl⟩
    exact execute_of_fails (.key op x k hop hk (Key.value?_eq_none_iff.2 hpad))

end Machine

end Chip8
