import Chip8.Fault

/-!
# The built-in font

Sixteen glyphs, one per hexadecimal digit, five rows each with the four pixels
of a row in the high half of its byte. `address` is where the glyph of a digit
lies when the font starts at a given address.
-/

namespace Chip8.Font

def glyphs : List (List UInt8) :=
  [[0xF0, 0x90, 0x90, 0x90, 0xF0],
   [0x20, 0x60, 0x20, 0x20, 0x70],
   [0xF0, 0x10, 0xF0, 0x80, 0xF0],
   [0xF0, 0x10, 0xF0, 0x10, 0xF0],
   [0x90, 0x90, 0xF0, 0x10, 0x10],
   [0xF0, 0x80, 0xF0, 0x10, 0xF0],
   [0xF0, 0x80, 0xF0, 0x90, 0xF0],
   [0xF0, 0x10, 0x20, 0x40, 0x40],
   [0xF0, 0x90, 0xF0, 0x90, 0xF0],
   [0xF0, 0x90, 0xF0, 0x10, 0xF0],
   [0xF0, 0x90, 0xF0, 0x90, 0x90],
   [0xE0, 0x90, 0xE0, 0x90, 0xE0],
   [0xF0, 0x80, 0x80, 0x80, 0xF0],
   [0xE0, 0x90, 0x90, 0x90, 0xE0],
   [0xF0, 0x80, 0xF0, 0x80, 0xF0],
   [0xF0, 0x80, 0xF0, 0x80, 0x80]]

def glyphRows : Nat := 5

/-- The number of bytes of the font. -/
def size : Nat := 80

def bytes : List UInt8 :=
  glyphs.flatten

def address (digit start : Int) : Except Fault Int :=
  if 0 ≤ digit ∧ digit < 16 then .ok (start + glyphRows * digit)
  else .error (.invalidSprite digit)

theorem length_bytes : bytes.length = size := rfl

theorem length_of_mem_glyphs {g : List UInt8} (h : g ∈ glyphs) : g.length = glyphRows := by
  revert g; decide

end Chip8.Font
