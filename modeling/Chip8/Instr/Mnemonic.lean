import Chip8.Text.Hex
import Chip8.Instr.Basic

/-!
# Mnemonics

The assembler text of an instruction. Each group of opcodes writes its operands
in one way, registers as `V` and a hexadecimal number, addresses and bytes after
a `$`, so that a table of the words around them is all that an opcode adds.
-/

namespace Chip8

namespace Op

def Plain.text : Plain → String
  | clear => "CLS"
  | ret => "RET"

/-- The text before the address. -/
def Addr.before : Addr → String
  | sys => "SYS "
  | jump => "JP "
  | call => "CALL "
  | jumpV0 => "JP V0, "
  | setIndex => "LD I, "

/-- The texts before and after the register. -/
def Reg.around : Reg → String × String
  | shiftRight => ("SHR ", "")
  | shiftLeft => ("SHL ", "")
  | skipKey => ("SKP ", "")
  | skipNoKey => ("SKNP ", "")
  | getDelay => ("LD ", ", DT")
  | waitKey => ("LD ", ", K")
  | setDelay => ("LD DT, ", "")
  | setSound => ("LD ST, ", "")
  | addIndex => ("ADD I, ", "")
  | glyph => ("LD F, ", "")
  | storeDecimal => ("LD B, ", "")
  | dump => ("LD [I], ", "")
  | load => ("LD ", ", [I]")

def Pair.before : Pair → String
  | skipEq => "SE "
  | skipNe => "SNE "
  | copy => "LD "
  | or => "OR "
  | and => "AND "
  | xor => "XOR "
  | add => "ADD "
  | sub => "SUB "
  | subFrom => "SUBN "

def Byte.before : Byte → String
  | skipEq => "SE "
  | skipNe => "SNE "
  | load => "LD "
  | add => "ADD "
  | random => "RND "

end Op

namespace Instr

def registerText (x : Int) : String :=
  "V" ++ Hex.padded 0 x

def mnemonic : Instr → String
  | plain op => op.text
  | addr op nnn => op.before ++ "$" ++ Hex.padded 3 nnn
  | reg op x => op.around.1 ++ registerText x ++ op.around.2
  | pair op x y => op.before ++ registerText x ++ ", " ++ registerText y
  | byte op x kk => op.before ++ registerText x ++ ", $" ++ Hex.padded 2 kk
  | draw x y n => "DRW " ++ registerText x ++ ", " ++ registerText y ++ ", " ++ toString n

end Instr

end Chip8
