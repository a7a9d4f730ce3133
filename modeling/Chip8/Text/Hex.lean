/-!
# Hexadecimal text

`digits n` are the upper-case digits of `n`, most significant first.
`padded w n` writes a signed number in at least `w` columns: the sign takes
one of the columns and the zeros stand between it and the digits.
-/

namespace Chip8.Hex

def digits (n : Nat) : List Char :=
  (Nat.toDigits 16 n).map Char.toUpper

/-- Zeros in front, up to `w` columns; longer texts are kept whole. -/
def zeroPad (w : Nat) (ds : List Char) : List Char :=
  List.replicate (w - ds.length) '0' ++ ds

def padded (w : Nat) (n : Int) : String :=
  if n < 0 then
    String.ofList ('-' :: zeroPad (w - 1) (digits n.natAbs))
  else
    String.ofList (zeroPad w (digits n.natAbs))

/-- The two digits of a byte. -/
def byte (b : UInt8) : String :=
  padded 2 b.toNat

theorem length_zeroPad (w : Nat) (ds : List Char) :
    (zeroPad w ds).length = max w ds.length := by
  simp only [zeroPad, List.length_append, List.length_replicate]
  omega

end Chip8.Hex
