import Chip8.Fault
import Chip8.Instr.Basic

/-!
# Instruction words

Every opcode fixes some bits of its word (`mask`) to `pattern`; the others hold
its operands or, for the two shifts, a register number that is ignored.
`encode` writes an instruction as a word, and refuses operands that do not fit
their fields. `decode` reads a word: the first opcode in `Opcode.all` whose
fixed bits match gives the instruction, and an address operand has to lie below
the limit. Only `SYS` shares words with other opcodes, which come before it.
-/

namespace Chip8

namespace Opcode

def pattern : Opcode → Nat
  | plain .clear => 0x00E0
  | plain .ret => 0x00EE
  | addr .sys => 0x0000
  | addr .jump => 0x1000
  | addr .call => 0x2000
  | byte .skipEq => 0x3000
  | byte .skipNe => 0x4000
  | pair .skipEq => 0x5000
  | byte .load => 0x6000
  | byte .add => 0x7000
  | pair .copy => 0x8000
  | pair .or => 0x8001
  | pair .and => 0x8002
  | pair .xor => 0x8003
  | pair .add => 0x8004
  | pair .sub => 0x8005
  | reg .shiftRight => 0x8006
  | pair .subFrom => 0x8007
  | reg .shiftLeft => 0x800E
  | pair .skipNe => 0x9000
  | addr .setIndex => 0xA000
  | addr .jumpV0 => 0xB000
  | byte .random => 0xC000
  | draw => 0xD000
  | reg .skipKey => 0xE09E
  | reg .skipNoKey => 0xE0A1
  | reg .getDelay => 0xF007
  | reg .waitKey => 0xF00A
  | reg .setDelay => 0xF015
  | reg .setSound => 0xF018
  | reg .addIndex => 0xF01E
  | reg .glyph => 0xF029
  | reg .storeDecimal => 0xF033
  | reg .dump => 0xF055
  | reg .load => 0xF065

/-- Bits that may have any value and are written as zero. -/
def ignored : Opcode → Nat
  | reg .shiftRight => 0x00F0
  | reg .shiftLeft => 0x00F0
  | _ => 0

/-- Bits that hold operands. -/
def operandBits : Opcode → Nat
  | plain _ => 0
  | addr _ => 0x0FFF
  | reg _ => 0x0F00
  | pair _ => 0x0FF0
  | byte _ => 0x0FFF
  | draw => 0x0FFF

/-- The fixed bits. -/
def mask (o : Opcode) : Nat :=
  0xFFFF - o.operandBits - o.ignored

def matchesWord (o : Opcode) (w : Nat) : Bool :=
  w &&& o.mask == o.pattern

/-- The name under which an opcode is reported when an operand does not fit. -/
def name : Opcode → String
  | plain .clear => "ClearDisplay"
  | plain .ret => "Return"
  | addr .sys => "SysAddr"
  | addr .jump => "Jump"
  | addr .call => "Call"
  | addr .jumpV0 => "JumpV0"
  | addr .setIndex => "SetIndex"
  | reg .shiftRight => "ShiftRight"
  | reg .shiftLeft => "ShiftLeft"
  | reg .skipKey => "SkipIfKeyPressed"
  | reg .skipNoKey => "SkipIfKeyNotPressed"
  | reg .getDelay => "LoadDelayTimer"
  | reg .waitKey => "WaitForKey"
  | reg .setDelay => "SetDelayTimer"
  | reg .setSound => "SetSoundTimer"
  | reg .addIndex => "AddI"
  | reg .glyph => "LoadSpriteAddr"
  | reg .storeDecimal => "StoreBCD"
  | reg .dump => "RegDump"
  | reg .load => "RegLoad"
  | pair .skipEq => "SkipIfRegEqual"
  | pair .skipNe => "SkipIfRegNotEqual"
  | pair .copy => "LoadReg"
  | pair .or => "Or"
  | pair .and => "And"
  | pair .xor => "Xor"
  | pair .add => "AddReg"
  | pair .sub => "Sub"
  | pair .subFrom => "SubN"
  | byte .skipEq => "SkipIfEqual"
  | byte .skipNe => "SkipIfNotEqual"
  | byte .load => "LoadByte"
  | byte .add => "AddByte"
  | byte .random => "Random"
  | draw => "Draw"

/-- Where the fixed bits of two opcodes agree, one of the two is `SYS` and the other has no
operands. -/
theorem sys_and_plain_of_overlap : ∀ o ∈ all, ∀ p ∈ all,
    o.pattern &&& p.mask = p.pattern &&& o.mask → p ≠ o →
      (o = .addr .sys ∧ p ∈ plains.map plain) ∨ (p = .addr .sys ∧ o ∈ plains.map plain) := by
  decide

theorem sys_and_plain_of_matchesWord {o p : Opcode} {w : Nat} (ho : o.matchesWord w = true)
    (hp : p.matchesWord w = true) (hne : p ≠ o) :
    (o = .addr .sys ∧ p ∈ plains.map plain) ∨ (p = .addr .sys ∧ o ∈ plains.map plain) := by
  refine sys_and_plain_of_overlap o (mem_all o) p (mem_all p) ?_ hne
  simp only [matchesWord, beq_iff_eq] at ho hp
  rw [← ho, ← hp, Nat.and_assoc, Nat.and_assoc, Nat.and_comm o.mask]

end Opcode

namespace Instr

/-- The first operand that does not fit its field. -/
def misfit? (i : Instr) : Option (Field × Int) :=
  i.operands.find? fun p => !decide (p.1.Fits p.2)

def word (i : Instr) : Nat :=
  i.operands.foldl (fun w p => w + p.2.toNat <<< p.1.shift) i.opcode.pattern

def encode (i : Instr) : Except Failure Nat :=
  match i.misfit? with
  | none => .ok i.word
  | some (.addr, v) => .error (.fault (.invalidAddress v))
  | some (f, v) => .error (.misuse (.operandTooWide i.opcode.name f.name v f.bits))

/-- The instruction of a word, whatever its address operand. -/
def ofWord? (w : Nat) : Option Instr :=
  (Opcode.all.find? (·.matchesWord w)).map (·.read w)

def decode (w limit : Int) : Except Failure Instr :=
  if 0 ≤ w ∧ w ≤ 0xFFFF then
    match ofWord? w.toNat with
    | none => .error (.fault (.invalidOpcode w))
    | some i =>
      match i.address? with
      | none => .ok i
      | some a => if a < limit then .ok i else .error (.fault (.invalidAddress a))
  else .error (.misuse (.wordTooWide w))

/-- The high byte of a word comes first. -/
def decodeBytes (high low limit : Int) : Except Failure Instr :=
  if (0 ≤ high ∧ high ≤ 0xFF) ∧ (0 ≤ low ∧ low ≤ 0xFF) then
    decode (256 * high + low) limit
  else .error (.misuse (.bytesTooWide high low))

theorem ofWord?_eq_none_iff {w : Nat} :
    ofWord? w = none ↔ ∀ o : Opcode, o.matchesWord w = false := by
  simp [ofWord?, Opcode.mem_all]

end Instr

end Chip8
