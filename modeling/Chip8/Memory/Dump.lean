import Chip8.Memory
import Chip8.Text.Column

/-!
# Hex dumps

`dump start length` shows memory sixteen bytes a line: the address, the bytes in
hexadecimal, and the bytes as characters with a dot for what is no printable
ASCII. The range ends with memory. Addresses are not checked: the bytes of a
line are a slice, whose bounds count from the end of memory when they are
negative (`bound`).
-/

namespace Chip8.Memory

/-- The bytes between two bounds; none when they cross. -/
def slice (m : Memory) (start stop : Int) : List UInt8 :=
  (m.cells.extract (m.bound start) (m.bound stop)).toList

def asciiChar (b : UInt8) : Char :=
  if 0x20 ≤ b ∧ b < 0x7F then Char.ofNat b.toNat else '.'

/-- The width of sixteen bytes with spaces between them. -/
def hexColumns : Nat := 47

def lineText (address : Int) (bytes : List UInt8) : String :=
  let hex := " ".intercalate (bytes.map Hex.byte)
  let ascii := String.ofList (bytes.map asciiChar)
  Hex.padded 3 address ++ "  " ++ Column.padRight hexColumns hex ++ "  " ++ ascii

/-- The number of lines that cover `n` bytes. -/
def lineCount (n : Int) : Nat :=
  ((n + 15) / 16).toNat

def dumpLines (m : Memory) (start length : Int) : List String :=
  let stop := min (start + length) m.size
  (List.range (lineCount (stop - start))).map fun (q : Nat) =>
    let address := start + 16 * (q : Int)
    lineText address (m.slice address (min (address + 16) stop))

def dump (m : Memory) (start : Int) (length : Int := 256) : String :=
  "\n".intercalate (m.dumpLines start length)

theorem length_dumpLines (m : Memory) (start length : Int) :
    (m.dumpLines start length).length = lineCount (min (start + length) m.size - start) := by
  simp [dumpLines]

end Chip8.Memory
