import Chip8.Extent

/-!
# Registers

Sixteen byte registers, the index register `i` and the program counter `pc`.
Values from outside are cut to the width of the register. Register numbers -16
to -1 count from the end; `slot?` says which numbers name a register. The last
register doubles as the flag.
-/

namespace Chip8

/-- So that registers can be written as numerals; `Zero.ofOfNat0` is the zero that those of `Fin`
use. -/
@[instance]
theorem neZero_sixteen : @NeZero Nat Zero.ofOfNat0 16 := ⟨by decide⟩

structure Registers where
  v : Vector UInt8 16
  i : UInt16
  pc : UInt16
  deriving DecidableEq, Repr

namespace Registers

def cleared : Registers where
  v := Vector.replicate 16 0
  i := 0
  pc := 0

def slot? (k : Int) : Option (Fin 16) :=
  if h : 0 ≤ k ∧ k < 16 then some ⟨k.toNat, by omega⟩
  else if h : -16 ≤ k ∧ k < 0 then some ⟨(k + 16).toNat, by omega⟩
  else none

def read (r : Registers) (k : Int) : Except Misuse UInt8 :=
  match slot? k with
  | some s => .ok r.v[s]
  | none => .error (if Extent.IsWord k then .noSuchRegister else .registerTooFar)

def set (r : Registers) (s : Fin 16) (b : UInt8) : Registers :=
  { r with v := r.v.set s b }

def write (r : Registers) (k value : Int) : Except Misuse Registers :=
  match slot? k with
  | some s => .ok (r.set s (UInt8.ofInt value))
  | none => .error (if Extent.IsWord k then .noSuchTarget else .registerTooFar)

def flag (r : Registers) : UInt8 :=
  r.v[15]

def setFlag (r : Registers) (value : Int) : Registers :=
  r.set 15 (UInt8.ofInt value)

def setIndex (r : Registers) (value : Int) : Registers :=
  { r with i := UInt16.ofInt value }

def setCounter (r : Registers) (value : Int) : Registers :=
  { r with pc := UInt16.ofInt value }

/-! ## Text -/

def columnText (k : Nat) (b : UInt8) : String :=
  "V" ++ Hex.padded 0 k ++ "=" ++ Hex.byte b

def text (r : Registers) : String :=
  "PC=" ++ Hex.padded 3 r.pc.toNat ++ " I=" ++ Hex.padded 3 r.i.toNat ++ " " ++
    " ".intercalate (r.v.toList.zipIdx.map fun p => columnText p.2 p.1)

/-! ## Reading what was written -/

theorem slot?_fin (s : Fin 16) : slot? s.val = some s := by
  have h : 0 ≤ (s.val : Int) ∧ (s.val : Int) < 16 := by omega
  simp [slot?, h]

theorem slot?_eq_none_iff {k : Int} : slot? k = none ↔ k < -16 ∨ 16 ≤ k := by
  simp only [slot?]
  split
  · simp; omega
  · split
    · simp; omega
    · simp; omega

theorem getElem_set (r : Registers) (s t : Fin 16) (b : UInt8) :
    (r.set s b).v[t] = if s = t then b else r.v[t] := by
  simp only [set, Fin.getElem_fin, Vector.getElem_set, Fin.val_inj]

end Registers

end Chip8
