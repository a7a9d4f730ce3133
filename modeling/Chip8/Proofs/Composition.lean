import Chip8.Proofs.Action

/-!
# What instructions are made of

An instruction is a sequence of operations on single components. `Opcode.primitives` lists those
that it can use. `Compositional allowed P` says that `P` holds of the allowed ones among these and
of all sequences, so that it holds of every instruction that uses no others, whatever its operands
(`Compositional.execute`).
-/

namespace Chip8

/-- The operations on single components that not every instruction uses. -/
inductive Primitive where
  | setRegister
  | setFlag
  | setIndex
  | setCounter
  | readCell
  | writeCell
  | push
  | pop
  | readDelay
  | setDelay
  | setSound
  | clearScreen
  | draw
  | heldKey
  | randomByte
  deriving DecidableEq, Repr

namespace Opcode

/-- Whatever an opcode may do beyond looking at registers. -/
def primitives : Opcode → List Primitive
  | plain .clear => [.clearScreen]
  | plain .ret => [.pop, .setCounter]
  | addr .sys => []
  | addr .jump => [.setCounter]
  | addr .call => [.push, .setCounter]
  | addr .jumpV0 => [.setCounter]
  | addr .setIndex => [.setIndex]
  | reg .shiftRight => [.setRegister, .setFlag]
  | reg .shiftLeft => [.setRegister, .setFlag]
  | reg .skipKey => [.heldKey, .setCounter]
  | reg .skipNoKey => [.heldKey, .setCounter]
  | reg .getDelay => [.readDelay, .setRegister]
  | reg .waitKey => [.heldKey, .setCounter, .setRegister]
  | reg .setDelay => [.setDelay]
  | reg .setSound => [.setSound]
  | reg .addIndex => [.setIndex]
  | reg .glyph => [.setIndex]
  | reg .storeDecimal => [.writeCell]
  | reg .dump => [.writeCell]
  | reg .load => [.readCell, .setRegister]
  | pair .skipEq => [.setCounter]
  | pair .skipNe => [.setCounter]
  | pair .copy => [.setRegister]
  | pair .or => [.setRegister]
  | pair .and => [.setRegister]
  | pair .xor => [.setRegister]
  | pair .add => [.setRegister, .setFlag]
  | pair .sub => [.setRegister, .setFlag]
  | pair .subFrom => [.setRegister, .setFlag]
  | byte .skipEq => [.setCounter]
  | byte .skipNe => [.setCounter]
  | byte .load => [.setRegister]
  | byte .add => [.setRegister]
  | byte .random => [.randomByte, .setRegister]
  | draw => [.readCell, .draw, .setFlag]

theorem readDelay_mem_primitives_iff (o : Opcode) :
    .readDelay ∈ o.primitives ↔ o = .reg .getDelay := by
  rcases o with op | op | op | op | op | _ <;> first | (cases op <;> decide) | decide

end Opcode

/-- The instruction that lets a program see a timer. -/
def Instr.ReadsTimer (i : Instr) : Prop :=
  ∃ x, i = .reg .getDelay x

theorem Instr.ne_readDelay_of_mem {i : Instr} (hi : ¬ i.ReadsTimer) {p : Primitive}
    (hp : p ∈ i.opcode.primitives) : p ≠ .readDelay := by
  rintro rfl
  apply hi
  have ho := i.opcode.readDelay_mem_primitives_iff.1 hp
  cases i with
  | reg op x => cases ho; exact ⟨x, rfl⟩
  | _ => cases ho

namespace Machine

structure Compositional (allowed : Primitive → Prop) (P : ∀ {α : Type}, Action α → Prop) :
    Prop where
  pure : ∀ {α : Type} (x : α), P (pure x : Action α)
  bind : ∀ {α β : Type} {a : Action α} {k : α → Action β}, P a → (∀ x, P (k x)) → P (a >>= k)
  fault : ∀ {α : Type} (f : Fault), P (fault f : Action α)
  /-- The font is where the configuration says. -/
  fontStart : ∀ {α : Type} (k : Int → Action α), (∀ a, P (k a)) →
    P (get >>= fun m => k m.config.fontStart)
  register : ∀ x, P (register x)
  index : P index
  counter : P counter
  setRegister : allowed .setRegister → ∀ x v, P (setRegister x v)
  setFlag : allowed .setFlag → ∀ v, P (setFlag v)
  setIndex : allowed .setIndex → ∀ v, P (setIndex v)
  setCounter : allowed .setCounter → ∀ v, P (setCounter v)
  readCell : allowed .readCell → ∀ a, P (readCell a)
  writeCell : allowed .writeCell → ∀ a v, P (writeCell a v)
  push : allowed .push → ∀ a, P (push a)
  pop : allowed .pop → P pop
  readDelay : allowed .readDelay → ∀ {α : Type} (k : UInt8 → Action α), (∀ b, P (k b)) →
    P (get >>= fun m => k m.timers.delay)
  setDelay : allowed .setDelay → ∀ v, P (setDelay v)
  setSound : allowed .setSound → ∀ v, P (setSound v)
  clearScreen : allowed .clearScreen → P clearScreen
  draw : allowed .draw → ∀ row col sprite, P (draw row col sprite)
  heldKey : allowed .heldKey → P heldKey
  randomByte : allowed .randomByte → P randomByte

namespace Compositional

variable {allowed : Primitive → Prop} {P : ∀ {α : Type}, Action α → Prop}
  (hP : Compositional allowed P)

include hP

/-! ## Transfers -/

theorem readCells (hr : allowed .readCell) (base : Int) (n k : Nat) : P (readCells base n k) := by
  induction n generalizing k with
  | zero => exact hP.pure []
  | succ n ih =>
    exact hP.bind (hP.readCell hr _) fun b => hP.bind (ih (k + 1)) fun bs => hP.pure _

theorem writeCells (hw : allowed .writeCell) (base : Int) (bs : List Int) :
    P (writeCells base bs) := by
  induction bs generalizing base with
  | nil => exact hP.pure ()
  | cons b bs ih => exact hP.bind (hP.writeCell hw base b) fun _ => ih (base + 1)

theorem dumpRegisters (hw : allowed .writeCell) (base : Int) (n k : Nat) :
    P (dumpRegisters base n k) := by
  induction n generalizing k with
  | zero => exact hP.pure ()
  | succ n ih =>
    exact hP.bind (hP.register k) fun b => hP.bind (hP.writeCell hw _ _) fun _ => ih (k + 1)

theorem loadRegisters (hr : allowed .readCell) (hs : allowed .setRegister) (base : Int)
    (n k : Nat) : P (loadRegisters base n k) := by
  induction n generalizing k with
  | zero => exact hP.pure ()
  | succ n ih =>
    exact hP.bind (hP.readCell hr _) fun b => hP.bind (hP.setRegister hs k _) fun _ => ih (k + 1)

/-! ## The groups of opcodes -/

theorem skipIf (hc : allowed .setCounter) (c : Bool) : P (skipIf c) := by
  cases c with
  | false => exact hP.pure ()
  | true => exact hP.bind hP.counter fun pc => hP.setCounter hc _

theorem setResult (hs : allowed .setRegister) (hf : allowed .setFlag) (x : Int) (r : Int × Int) :
    P (setResult x r) :=
  hP.bind (hP.setRegister hs x r.1) fun _ => hP.setFlag hf r.2

theorem setGlyph (hi : allowed .setIndex) (digit start : Int) : P (setGlyph digit start) := by
  unfold Machine.setGlyph
  cases Font.address digit start with
  | ok a => exact hP.setIndex hi a
  | error f => exact hP.fault f

/-- Two registers are read before anything is done with them. -/
theorem registers₂ {α : Type} (x y : Int) {k : UInt8 → UInt8 → Action α}
    (hk : ∀ a b, P (k a b)) : P (Machine.register x >>= fun a => Machine.register y >>= k a) :=
  hP.bind (hP.register x) fun a => hP.bind (hP.register y) (hk a)

theorem executePlain (op : Op.Plain) (h : ∀ p ∈ (Opcode.plain op).primitives, allowed p) :
    P (executePlain op) := by
  cases op with
  | clear => exact hP.clearScreen (h .clearScreen (by decide))
  | ret =>
    exact hP.bind (hP.pop (h .pop (by decide))) fun a => hP.setCounter (h .setCounter (by decide)) _

theorem executeAddr (op : Op.Addr) (nnn : Int)
    (h : ∀ p ∈ (Opcode.addr op).primitives, allowed p) : P (executeAddr op nnn) := by
  cases op with
  | sys => exact hP.pure ()
  | jump => exact hP.setCounter (h .setCounter (by decide)) nnn
  | call =>
    exact hP.bind hP.counter fun pc => hP.bind (hP.push (h .push (by decide)) _) fun _ =>
      hP.setCounter (h .setCounter (by decide)) nnn
  | jumpV0 =>
    exact hP.bind (hP.register 0) fun b => hP.setCounter (h .setCounter (by decide)) _
  | setIndex => exact hP.setIndex (h .setIndex (by decide)) nnn

theorem executeReg (op : Op.Reg) (x : Int) (h : ∀ p ∈ (Opcode.reg op).primitives, allowed p) :
    P (executeReg op x) := by
  cases op with
  | shiftRight =>
    exact hP.bind (hP.register x) fun a =>
      hP.setResult (h .setRegister (by decide)) (h .setFlag (by decide)) x _
  | shiftLeft =>
    exact hP.bind (hP.register x) fun a =>
      hP.setResult (h .setRegister (by decide)) (h .setFlag (by decide)) x _
  | skipKey =>
    refine hP.bind (hP.heldKey (h .heldKey (by decide))) fun k => ?_
    cases k with
    | none => exact hP.pure ()
    | some key =>
      exact hP.bind (hP.register x) fun a => hP.skipIf (h .setCounter (by decide)) _
  | skipNoKey =>
    refine hP.bind (hP.heldKey (h .heldKey (by decide))) fun k => ?_
    cases k with
    | none => exact hP.skipIf (h .setCounter (by decide)) true
    | some key =>
      exact hP.bind (hP.register x) fun a => hP.skipIf (h .setCounter (by decide)) _
  | getDelay =>
    exact hP.readDelay (h .readDelay (by decide)) (fun b => Machine.setRegister x b.toNat)
      fun b => hP.setRegister (h .setRegister (by decide)) x _
  | waitKey =>
    refine hP.bind (hP.heldKey (h .heldKey (by decide))) fun k => ?_
    cases k with
    | none => exact hP.bind hP.counter fun pc => hP.setCounter (h .setCounter (by decide)) _
    | some key => exact hP.setRegister (h .setRegister (by decide)) x _
  | setDelay => exact hP.bind (hP.register x) fun a => hP.setDelay (h .setDelay (by decide)) _
  | setSound => exact hP.bind (hP.register x) fun a => hP.setSound (h .setSound (by decide)) _
  | addIndex =>
    exact hP.bind hP.index fun i => hP.bind (hP.register x) fun a =>
      hP.setIndex (h .setIndex (by decide)) _
  | glyph =>
    exact hP.bind (hP.register x) fun a => hP.fontStart (Machine.setGlyph a.toNat) fun start =>
      hP.setGlyph (h .setIndex (by decide)) a.toNat start
  | storeDecimal =>
    exact hP.bind (hP.register x) fun a => hP.bind hP.index fun i =>
      hP.writeCells (h .writeCell (by decide)) _ _
  | dump =>
    exact hP.bind hP.index fun i => hP.dumpRegisters (h .writeCell (by decide)) _ _ _
  | load =>
    exact hP.bind hP.index fun i =>
      hP.loadRegisters (h .readCell (by decide)) (h .setRegister (by decide)) _ _ _

theorem executePair (op : Op.Pair) (x y : Int)
    (h : ∀ p ∈ (Opcode.pair op).primitives, allowed p) : P (executePair op x y) := by
  cases op with
  | skipEq => exact hP.registers₂ x y fun a b => hP.skipIf (h .setCounter (by decide)) _
  | skipNe => exact hP.registers₂ x y fun a b => hP.skipIf (h .setCounter (by decide)) _
  | copy => exact hP.bind (hP.register y) fun b => hP.setRegister (h .setRegister (by decide)) x _
  | or => exact hP.registers₂ x y fun a b => hP.setRegister (h .setRegister (by decide)) x _
  | and => exact hP.registers₂ x y fun a b => hP.setRegister (h .setRegister (by decide)) x _
  | xor => exact hP.registers₂ x y fun a b => hP.setRegister (h .setRegister (by decide)) x _
  | add =>
    exact hP.registers₂ x y fun a b =>
      hP.setResult (h .setRegister (by decide)) (h .setFlag (by decide)) x _
  | sub =>
    exact hP.registers₂ x y fun a b =>
      hP.setResult (h .setRegister (by decide)) (h .setFlag (by decide)) x _
  | subFrom =>
    exact hP.registers₂ y x fun a b =>
      hP.setResult (h .setRegister (by decide)) (h .setFlag (by decide)) x _

theorem executeByte (op : Op.Byte) (x kk : Int)
    (h : ∀ p ∈ (Opcode.byte op).primitives, allowed p) : P (executeByte op x kk) := by
  cases op with
  | skipEq => exact hP.bind (hP.register x) fun a => hP.skipIf (h .setCounter (by decide)) _
  | skipNe => exact hP.bind (hP.register x) fun a => hP.skipIf (h .setCounter (by decide)) _
  | load => exact hP.setRegister (h .setRegister (by decide)) x kk
  | add => exact hP.bind (hP.register x) fun a => hP.setRegister (h .setRegister (by decide)) x _
  | random =>
    exact hP.bind (hP.randomByte (h .randomByte (by decide))) fun b =>
      hP.setRegister (h .setRegister (by decide)) x _

theorem executeDraw (x y n : Int) (h : ∀ p ∈ Opcode.draw.primitives, allowed p) :
    P (executeDraw x y n) := by
  refine hP.bind hP.index fun i =>
    hP.bind (hP.readCells (h .readCell (by decide)) _ _ _) fun sprite => ?_
  exact hP.registers₂ y x fun row col =>
    hP.bind (hP.draw (h .draw (by decide)) _ _ _) fun b => hP.setFlag (h .setFlag (by decide)) _

theorem execute (i : Instr) (h : ∀ p ∈ i.opcode.primitives, allowed p) : P (execute i) := by
  cases i with
  | plain op => exact hP.executePlain op h
  | addr op nnn => exact hP.executeAddr op nnn h
  | reg op x => exact hP.executeReg op x h
  | pair op x y => exact hP.executePair op x y h
  | byte op x kk => exact hP.executeByte op x kk h
  | draw x y n => exact hP.executeDraw x y n h

end Compositional

end Machine

end Chip8
