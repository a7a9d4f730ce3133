import Chip8.Fault

/-!
# Sizes and positions

Sizes and positions may be asked for as whole numbers of any magnitude. Those
that fit a signed word of 64 bits can be counted. Whether as many cells can also
be had is for the host to say: a `Room` is its answer to every request, and
nothing is assumed of it. Only a request for no cells at all is never refused.
-/

namespace Chip8

/-- What a host has room for when it is asked. -/
structure Room where
  /-- A list of so many slots. -/
  slots : Nat → Bool
  /-- So many bytes in one piece. -/
  bytes : Nat → Bool
  /-- So many pieces of so many bytes each. -/
  rows : (count length : Nat) → Bool

/-- Room for everything. -/
def Room.unlimited : Room where
  slots _ := true
  bytes _ := true
  rows _ _ := true

namespace Extent

def IsWord (k : Int) : Prop :=
  -0x8000000000000000 ≤ k ∧ k < 0x8000000000000000

instance (k : Int) : Decidable (IsWord k) :=
  inferInstanceAs (Decidable (_ ∧ _))

/-- The cells can be counted and, if there are any, held. -/
def Held (holds : Nat → Bool) (count : Int) : Prop :=
  IsWord count ∧ (0 < count → holds count.toNat = true)

instance (holds : Nat → Bool) (count : Int) : Decidable (Held holds count) :=
  inferInstanceAs (Decidable (_ ∧ _))

/-- Why cells are refused that are not held. -/
def refusal (count : Int) : Misuse :=
  if IsWord count then .outOfMemory else .sizeTooWide

/-- The number of the cells that a host makes room for; there are none for a negative count. -/
def cells (holds : Nat → Bool) (count : Int) : Except Misuse Nat :=
  if ¬ IsWord count then .error .sizeTooWide
  else if 0 < count ∧ holds count.toNat = false then .error .outOfMemory
  else .ok count.toNat

section

variable {holds : Nat → Bool} {count : Int}

theorem refusal_of_word (hw : IsWord count) : refusal count = .outOfMemory :=
  if_pos hw

theorem refusal_of_not_word (hw : ¬ IsWord count) : refusal count = .sizeTooWide :=
  if_neg hw

theorem refusal_cases (count : Int) :
    refusal count = .sizeTooWide ∨ refusal count = .outOfMemory := by
  by_cases hw : IsWord count
  · exact .inr (refusal_of_word hw)
  · exact .inl (refusal_of_not_word hw)

theorem cells_of_held (h : Held holds count) : cells holds count = .ok count.toNat := by
  unfold cells
  rw [if_neg (Decidable.not_not.2 h.1), if_neg]
  rintro ⟨hpos, hrefused⟩
  rw [h.2 hpos] at hrefused
  cases hrefused

theorem cells_of_not_held (h : ¬ Held holds count) :
    cells holds count = .error (refusal count) := by
  unfold cells refusal
  by_cases hw : IsWord count
  · have hrefused : 0 < count ∧ holds count.toNat = false := by
      refine Decidable.byContradiction fun hno => h ⟨hw, fun hpos => ?_⟩
      cases hh : holds count.toNat with
      | true => rfl
      | false => exact absurd ⟨hpos, hh⟩ hno
    rw [if_neg (Decidable.not_not.2 hw), if_pos hrefused, if_pos hw]
  · rw [if_pos hw, if_neg hw]

end

end Extent

end Chip8
