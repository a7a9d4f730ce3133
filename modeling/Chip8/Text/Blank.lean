/-!
# Blank characters

`isBlank` is the class of characters that count as white space: the ASCII
blanks and separators, and the space, line and paragraph separators beyond
ASCII. `isMargin` is the smaller class without the four ASCII separators.
`trim p` removes the characters of a class at both ends of a text.
-/

namespace Chip8.Blank

/-- The inclusive code point ranges of the class. -/
def ranges : List (Nat × Nat) :=
  [(0x09, 0x0D), (0x1C, 0x20), (0x85, 0x85), (0xA0, 0xA0), (0x1680, 0x1680),
   (0x2000, 0x200A), (0x2028, 0x2029), (0x202F, 0x202F), (0x205F, 0x205F), (0x3000, 0x3000)]

def isBlank (c : Char) : Bool :=
  ranges.any fun r => r.1 ≤ c.toNat && c.toNat ≤ r.2

/-- U+001C to U+001F separate files, groups, records and units. -/
def isSeparator (c : Char) : Bool :=
  0x1C ≤ c.toNat && c.toNat ≤ 0x1F

def isMargin (c : Char) : Bool :=
  isBlank c && !isSeparator c

theorem isBlank_of_isWhitespace {c : Char} (h : c.isWhitespace = true) : isBlank c = true := by
  simp only [Char.isWhitespace, Bool.or_eq_true, decide_eq_true_eq] at h
  rcases h with ((rfl | rfl) | rfl) | rfl <;> decide

theorem isBlank_of_isMargin {c : Char} (h : isMargin c = true) : isBlank c = true := by
  simp_all [isMargin]

def trimStart (p : Char → Bool) (cs : List Char) : List Char :=
  cs.dropWhile p

def trimEnd (p : Char → Bool) (cs : List Char) : List Char :=
  (cs.reverse.dropWhile p).reverse

def trim (p : Char → Bool) (cs : List Char) : List Char :=
  trimEnd p (trimStart p cs)

theorem trimStart_cons_of_neg {p : Char → Bool} {c : Char} (h : p c = false) (cs : List Char) :
    trimStart p (c :: cs) = c :: cs := by
  simp [trimStart, h]

theorem trimEnd_concat_of_neg {p : Char → Bool} {c : Char} (h : p c = false) (cs : List Char) :
    trimEnd p (cs ++ [c]) = cs ++ [c] := by
  simp [trimEnd, h]

end Chip8.Blank
