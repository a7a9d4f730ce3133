/-!
# Byte arithmetic

The arithmetic of the registers on whole numbers: results are cut to eight
bits, and an operation that sets the flag returns it beside the result. The
flag of `add` is the carry, that of `sub` says that nothing was borrowed, and
the shifts return the bit that fell out.
-/

namespace Chip8.Arith

def add (a b : Int) : Int × Int :=
  ((a + b) % 256, if a + b > 255 then 1 else 0)

def sub (a b : Int) : Int × Int :=
  ((a - b) % 256, if a ≥ b then 1 else 0)

def shiftRight (a : Int) : Int × Int :=
  (a % 256 / 2, a % 2)

def shiftLeft (a : Int) : Int × Int :=
  (2 * a % 256, a / 128 % 2)

/-- Addition that sets no flag. -/
def addWrap (a b : Int) : Int :=
  (a + b) % 256

/-- Hundreds, tens and ones of the low byte. -/
def decimalDigits (a : Int) : List Int :=
  let b := a % 256
  [b / 100, b / 10 % 10, b % 10]

/-! ## Nothing is lost between result and flag -/

theorem add_carry {a b : Int} (ha : 0 ≤ a ∧ a < 256) (hb : 0 ≤ b ∧ b < 256) :
    (add a b).1 + 256 * (add a b).2 = a + b := by
  simp only [add]; split <;> omega

theorem sub_borrow {a b : Int} (ha : 0 ≤ a ∧ a < 256) (hb : 0 ≤ b ∧ b < 256) :
    (sub a b).1 = a - b + 256 * (1 - (sub a b).2) := by
  simp only [sub]; split <;> omega

theorem shiftRight_out {a : Int} (ha : 0 ≤ a ∧ a < 256) :
    a = 2 * (shiftRight a).1 + (shiftRight a).2 := by
  simp only [shiftRight]; omega

theorem shiftLeft_out {a : Int} (ha : 0 ≤ a ∧ a < 256) :
    2 * a = (shiftLeft a).1 + 256 * (shiftLeft a).2 := by
  simp only [shiftLeft]; omega

end Chip8.Arith
