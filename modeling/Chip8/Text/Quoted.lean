import Chip8.Text.Hex
import Chip8.Text.Printable

/-!
# Quoted text

`Quoted.text s` shows a string inside a message. The quote is `'`, or `"`
when the string holds the first and not the second. The quote in use and the
backslash are escaped; line feed, carriage return and tab have letters; other
characters that cannot be printed are written by code point in two, four or
eight lower-case digits. `Quoted.clipped n s` is the beginning of it.
-/

namespace Chip8.Quoted

def quoteFor (cs : List Char) : Char :=
  if '\'' ∈ cs ∧ '"' ∉ cs then '"' else '\''

/-- A code point after a letter that tells how many digits follow. -/
def codePoint (c : Char) : List Char :=
  let ds := Nat.toDigits 16 c.toNat
  if c.toNat < 0x100 then '\\' :: 'x' :: Hex.zeroPad 2 ds
  else if c.toNat < 0x10000 then '\\' :: 'u' :: Hex.zeroPad 4 ds
  else '\\' :: 'U' :: Hex.zeroPad 8 ds

def escape (quote c : Char) : List Char :=
  if c = quote ∨ c = '\\' then ['\\', c]
  else if c = '\n' then ['\\', 'n']
  else if c = '\r' then ['\\', 'r']
  else if c = '\t' then ['\\', 't']
  else if Printable.isPrintable c then [c]
  else codePoint c

def chars (cs : List Char) : List Char :=
  let quote := quoteFor cs
  quote :: cs.flatMap (escape quote) ++ [quote]

def text (s : String) : String :=
  String.ofList (chars s.toList)

/-- At most `n` characters of the quoted text, counted with its quotes. -/
def clipped (n : Nat) (s : String) : String :=
  String.ofList ((chars s.toList).take n)

end Chip8.Quoted
