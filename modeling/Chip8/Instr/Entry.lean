import Chip8.Instr.Word
import Chip8.Instr.Mnemonic

/-!
# Listing entries

A listing of a program has an entry per word: an instruction, or a blank entry,
which stands for the word zero, has no text and is nothing a machine can run.
-/

namespace Chip8

inductive Entry where
  | blank
  | instr (i : Instr)
  deriving DecidableEq, Repr

namespace Entry

def pattern : Entry → Nat
  | blank => 0
  | instr i => i.opcode.pattern

def mask : Entry → Nat
  | blank => 0xFFFF
  | instr i => i.opcode.mask

def ignored : Entry → Nat
  | blank => 0
  | instr i => i.opcode.ignored

def text : Entry → String
  | blank => ""
  | instr i => i.mnemonic

def encode : Entry → Except Failure Nat
  | blank => .ok 0
  | instr i => i.encode

end Entry

end Chip8
