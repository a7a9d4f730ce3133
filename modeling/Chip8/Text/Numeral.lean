import Chip8.Text.Blank
import Chip8.Text.Digit
import Chip8.Text.Quoted

/-!
# Numerals

`read? b` reads an integer literal in base `b`: margins on both sides, one
sign, in base sixteen an optional `0x` mark, then digits of any script with
single underscores between them (one underscore may follow the mark).
`read` also refuses a decimal literal with more than `maxDigits` digits, before
it looks at what follows them. `parse` is the notation of numeric arguments: the
text's first characters choose the base, `0x` or `$` for sixteen and anything
else for ten. A literal that cannot be read is reported with the base and the
beginning of the text it was read from.
-/

namespace Chip8.Numeral

/-- The digits that follow an already read value; each may have an underscore in front. -/
def tail? (base acc : Nat) : List Char → Option Nat
  | [] => some acc
  | '_' :: c :: cs =>
    match Digit.value? base c with
    | some d => tail? base (base * acc + d) cs
    | none => none
  | c :: cs =>
    match Digit.value? base c with
    | some d => tail? base (base * acc + d) cs
    | none => none

/-- At least one digit, and no underscore before it. -/
def magnitude? (base : Nat) : List Char → Option Nat
  | [] => none
  | c :: cs =>
    match Digit.value? base c with
    | some d => tail? base d cs
    | none => none

/-- Skips `0x` and an underscore after it; only base sixteen has a mark. -/
def dropMark (base : Nat) (cs : List Char) : List Char :=
  match cs with
  | z :: x :: rest =>
    if base = 16 ∧ Digit.decimal? z = some 0 ∧ (x = 'x' ∨ x = 'X') then
      match rest with
      | '_' :: r => r
      | r => r
    else cs
  | _ => cs

def unsigned? (base : Nat) (cs : List Char) : Option Nat :=
  magnitude? base (dropMark base cs)

def signed? (base : Nat) : List Char → Option Int
  | '-' :: cs => (unsigned? base cs).map fun n => -(n : Int)
  | '+' :: cs => (unsigned? base cs).map Int.ofNat
  | cs => (unsigned? base cs).map Int.ofNat

def read? (base : Nat) (cs : List Char) : Option Int :=
  signed? base (Blank.trim Blank.isMargin cs)

/-! ## The length of decimal literals -/

/-- The most digits of a decimal literal, zeros in front included. -/
def maxDigits : Nat := 4300

def dropSign : List Char → List Char
  | '-' :: cs => cs
  | '+' :: cs => cs
  | cs => cs

/-- No underscore is at either end or next to another one. -/
def separates : List Char → Bool
  | [] => true
  | '_' :: _ => false
  | [_] => true
  | _ :: '_' :: cs => !cs.isEmpty && separates cs
  | _ :: cs => separates cs

/-- The number of digits that a decimal literal starts with; 0 if underscores are out of place. -/
def leadingDigits (cs : List Char) : Nat :=
  let run := (dropSign (Blank.trim Blank.isMargin cs)).takeWhile fun c =>
    c == '_' || (Digit.decimal? c).isSome
  if separates run then run.countP (· ≠ '_') else 0

inductive Invalid where
  /-- A text that is no literal of its base. -/
  | literal (base : Nat) (text : String)
  /-- A decimal literal with too many digits. -/
  | tooLong (digits : Nat)
  deriving DecidableEq, Repr

/-- The most characters of a refused text that a message shows. -/
def maxShown : Nat := 200

def Invalid.message : Invalid → String
  | literal base text =>
    s!"invalid literal for int() with base {base}: {Quoted.clipped maxShown text}"
  | tooLong digits =>
    s!"Exceeds the limit ({maxDigits} digits) for integer string conversion: value has " ++
      s!"{digits} digits; use sys.set_int_max_str_digits() to increase the limit"

def read (base : Nat) (text : String) : Except Invalid Int :=
  let digits := leadingDigits text.toList
  if base = 10 ∧ maxDigits < digits then .error (.tooLong digits)
  else
    match read? base text.toList with
    | some n => .ok n
    | none => .error (.literal base text)

/-- The base and the text that a numeric argument stands for, once trimmed. -/
def literalOf : List Char → Nat × List Char
  | '0' :: 'x' :: cs => (16, '0' :: 'x' :: cs)
  | '0' :: 'X' :: cs => (16, '0' :: 'X' :: cs)
  | '$' :: cs => (16, cs)
  | cs => (10, cs)

def parse (text : String) : Except Invalid Int :=
  let (base, cs) := literalOf (Blank.trim Blank.isBlank text.toList)
  read base (String.ofList cs)

end Chip8.Numeral
