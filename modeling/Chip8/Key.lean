import Chip8.Text.Quoted

/-!
# Keys

A `Key` is what a front end reports as pressed: any text, or nothing in the
place of one. `value?` is its number: the text has to be one character, and its
small form has to occur among the hexadecimal digits, at the place that is the
number.
-/

namespace Chip8

inductive Key where
  | text (s : String)
  /-- A press that names no key. -/
  | unnamed
  deriving DecidableEq, Repr

namespace Key

/-- A key as a message shows it. -/
def shown : Key → String
  | text s => Quoted.text s
  | unnamed => "[]"

/-- The digits, each at the place that is its number. -/
def digits : List Char :=
  ['0', '1', '2', '3', '4', '5', '6', '7', '8', '9', 'a', 'b', 'c', 'd', 'e', 'f']

/-- The first place at which some characters occur in a row among others. -/
def place? (cs : List Char) : (among : List Char) → Option Nat
  | [] => if cs = [] then some 0 else none
  | a :: rest => if cs.isPrefixOf (a :: rest) then some 0 else (place? cs rest).map (· + 1)

/-- Only the letters of ASCII are folded; no other letter has a digit for its small form. -/
def value? : Key → Option UInt8
  | text s =>
    if s.length ≠ 1 then none else (place? s.toLower.toList digits).map UInt8.ofNat
  | unnamed => none

end Key

end Chip8
