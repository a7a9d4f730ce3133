import Chip8.Arith
import Chip8.Instr.Entry
import Chip8.Machine.Basic

/-!
# What instructions do

`execute` applies one instruction to a machine whose counter already points past
it. Operands are read before anything is written, and the flag is written last,
so that it holds the flag also when it was the target. Transfers between the
registers and memory go cell by cell and keep what they have done when they
leave memory.
-/

namespace Chip8.Machine

/-! ## Transfers between registers and memory -/

/-- The bytes of `count` cells from the `k`-th after the base. -/
def readCells (base : Int) : (count k : Nat) → Action (List UInt8)
  | 0, _ => pure []
  | n + 1, k => do
    let b ← readCell (base + k)
    return b :: (← readCells base n (k + 1))

def writeCells (base : Int) : List Int → Action Unit
  | [] => pure ()
  | b :: bs => do
    writeCell base b
    writeCells (base + 1) bs

/-- Stores `count` registers from the `k`-th on. -/
def dumpRegisters (base : Int) : (count k : Nat) → Action Unit
  | 0, _ => pure ()
  | n + 1, k => do
    writeCell (base + k) (← register k).toNat
    dumpRegisters base n (k + 1)

/-- Loads `count` registers from the `k`-th on. -/
def loadRegisters (base : Int) : (count k : Nat) → Action Unit
  | 0, _ => pure ()
  | n + 1, k => do
    setRegister k (← readCell (base + k)).toNat
    loadRegisters base n (k + 1)

/-! ## The groups of opcodes -/

def skipIf (condition : Bool) : Action Unit := do
  if condition then setCounter ((← counter).toNat + 2)

/-- Stores a result and then its flag. -/
def setResult (x : Int) (result : Int × Int) : Action Unit := do
  setRegister x result.1
  setFlag result.2

/-- Points the index register at the glyph of a digit. -/
def setGlyph (digit start : Int) : Action Unit :=
  match Font.address digit start with
  | .ok a => setIndex a
  | .error f => fault f

def executePlain : Op.Plain → Action Unit
  | .clear => clearScreen
  | .ret => do setCounter (← pop).toNat

def executeAddr (op : Op.Addr) (nnn : Int) : Action Unit :=
  match op with
  | .sys => pure ()
  | .jump => setCounter nnn
  | .call => do
    push (← counter).toNat
    setCounter nnn
  | .jumpV0 => do setCounter (nnn + (← register 0).toNat)
  | .setIndex => setIndex nnn

def executeReg (op : Op.Reg) (x : Int) : Action Unit :=
  match op with
  | .shiftRight => do setResult x (Arith.shiftRight (← register x).toNat)
  | .shiftLeft => do setResult x (Arith.shiftLeft (← register x).toNat)
  | .skipKey => do
    match ← heldKey with
    | none => pure ()
    | some key => skipIf (key == (← register x))
  | .skipNoKey => do
    match ← heldKey with
    | none => skipIf true
    | some key => skipIf (key != (← register x))
  | .getDelay => do setRegister x (← get).timers.delay.toNat
  | .waitKey => do
    match ← heldKey with
    | none => setCounter ((← counter).toNat - 2)
    | some key => setRegister x key.toNat
  | .setDelay => do setDelay (← register x).toNat
  | .setSound => do setSound (← register x).toNat
  | .addIndex => do setIndex ((← index).toNat + (← register x).toNat)
  | .glyph => do setGlyph (← register x).toNat (← get).config.fontStart
  | .storeDecimal => do
    let digits := Arith.decimalDigits (← register x).toNat
    writeCells (← index).toNat digits
  | .dump => do dumpRegisters (← index).toNat (x + 1).toNat 0
  | .load => do loadRegisters (← index).toNat (x + 1).toNat 0

def executePair (op : Op.Pair) (x y : Int) : Action Unit :=
  match op with
  | .skipEq => do skipIf ((← register x) == (← register y))
  | .skipNe => do skipIf ((← register x) != (← register y))
  | .copy => do setRegister x (← register y).toNat
  | .or => do setRegister x ((← register x) ||| (← register y)).toNat
  | .and => do setRegister x ((← register x) &&& (← register y)).toNat
  | .xor => do setRegister x ((← register x) ^^^ (← register y)).toNat
  | .add => do setResult x (Arith.add (← register x).toNat (← register y).toNat)
  | .sub => do setResult x (Arith.sub (← register x).toNat (← register y).toNat)
  | .subFrom => do setResult x (Arith.sub (← register y).toNat (← register x).toNat)

def executeByte (op : Op.Byte) (x kk : Int) : Action Unit :=
  match op with
  | .skipEq => do skipIf (((← register x).toNat : Int) == kk)
  | .skipNe => do skipIf (((← register x).toNat : Int) != kk)
  | .load => setRegister x kk
  | .add => do setRegister x (Arith.addWrap (← register x).toNat kk)
  | .random => do setRegister x ((← randomByte) &&& UInt8.ofInt kk).toNat

/-- The whole sprite is read first, so that a bad address touches no pixel. -/
def executeDraw (x y n : Int) : Action Unit := do
  let sprite ← readCells (← index).toNat n.toNat 0
  let row ← register y
  let col ← register x
  let erased ← draw row.toNat col.toNat (sprite.map fun b => (b.toNat : Int))
  setFlag (if erased then 1 else 0)

def execute : Instr → Action Unit
  | .plain op => executePlain op
  | .addr op nnn => executeAddr op nnn
  | .reg op x => executeReg op x
  | .pair op x y => executePair op x y
  | .byte op x kk => executeByte op x kk
  | .draw x y n => executeDraw x y n

/-- A blank entry is no instruction. -/
def executeEntry : Entry → Action Unit
  | .blank => fault (.invalidOpcode 0)
  | .instr i => execute i

end Chip8.Machine
