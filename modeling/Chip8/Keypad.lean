import Chip8.Fault

/-!
# The keypad

A latch with the key that is held, if any. Anything may be pressed; it is looked
at only when an instruction asks for the key, and then has to have a number.
-/

namespace Chip8

structure Keypad where
  held : Option Key
  deriving DecidableEq, Repr

namespace Keypad

def idle : Keypad :=
  ⟨none⟩

/-- Replaces whatever was held; `none` holds nothing. -/
def press (_ : Keypad) (key : Option Key) : Keypad :=
  ⟨key⟩

def release (_ : Keypad) : Keypad :=
  idle

/-- The number of the held key. -/
def nibble (k : Keypad) : Except Fault (Option UInt8) :=
  match k.held with
  | none => .ok none
  | some key =>
    match key.value? with
    | some v => .ok (some v)
    | none => .error (.invalidKey key)

end Keypad

end Chip8
