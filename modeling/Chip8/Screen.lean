import Chip8.Extent

/-!
# The screen

A monochrome picture, eight pixels to a byte, rows one after the other, the
leftmost pixel of a byte in its highest bit. A screen comes with its shape: both
sides are positive, a row is a whole number of bytes, and every row is there in
full. `draw` XORs a sprite onto it: a sprite byte that is not aligned falls on two
storage bytes, and both axes wrap. Every access on the way is checked, and it is
the shape that makes the checks succeed. `pixel` is the picture seen as single
pixels.
-/

namespace Chip8

structure Screen where
  width : Nat
  height : Nat
  bytes : Array UInt8
  width_pos : 0 < width := by decide
  aligned : width % 8 = 0 := by decide
  height_pos : 0 < height := by decide
  size_bytes : bytes.size = height * (width / 8) := by decide
  deriving DecidableEq, Repr

namespace Screen

/-- The number of bytes of a row. -/
def stride (s : Screen) : Nat :=
  s.width / 8

theorem width_eq (s : Screen) : s.width = 8 * s.stride := by
  have := s.aligned
  unfold stride
  omega

theorem stride_pos (s : Screen) : 0 < s.stride := by
  have := s.width_pos
  have := s.width_eq
  omega

theorem size_eq (s : Screen) : s.bytes.size = s.height * s.stride :=
  s.size_bytes

/-- Where a byte of a row lies among all. -/
theorem index_lt (s : Screen) {r q : Nat} (hr : r < s.height) (hq : q < s.stride) :
    r * s.stride + q < s.bytes.size := by
  rw [s.size_eq]
  calc r * s.stride + q < r * s.stride + s.stride := Nat.add_lt_add_left hq _
    _ = (r + 1) * s.stride := (Nat.succ_mul r s.stride).symm
    _ ≤ s.height * s.stride := Nat.mul_le_mul_right _ hr

def blank (width height : Nat) (hw : 0 < width := by decide) (ha : width % 8 = 0 := by decide)
    (hh : 0 < height := by decide) : Screen where
  width := width
  height := height
  bytes := Array.replicate (height * (width / 8)) 0
  width_pos := hw
  aligned := ha
  height_pos := hh
  size_bytes := Array.size_replicate

def create (room : Room) (width height : Int) : Except Misuse Screen :=
  if hw : width ≤ 0 ∨ width % 8 ≠ 0 then .error (.screenWidth width)
  else if hh : height ≤ 0 then .error (.screenHeight height)
  else if ¬ Extent.IsWord (width / 8) then .error .sizeTooWide
  else if room.rows height.toNat (width / 8).toNat = false then .error .outOfMemory
  else .ok (blank width.toNat height.toNat (by omega) (by omega) (by omega))

theorem create_of_sides {room : Room} {width height : Int} (hw : 0 < width)
    (ha : width % 8 = 0) (hh : 0 < height) :
    create room width height =
      if ¬ Extent.IsWord (width / 8) then .error .sizeTooWide
      else if room.rows height.toNat (width / 8).toNat = false then .error .outOfMemory
      else .ok (blank width.toNat height.toNat (by omega) (by omega) (by omega)) := by
  unfold create
  rw [dif_neg (by omega), dif_neg (by omega)]

/-- A screen that is made has the sides that were asked for, and they are possible. -/
theorem sides_of_create {room : Room} {width height : Int} {s : Screen}
    (h : create room width height = .ok s) : 0 < width ∧ width % 8 = 0 ∧ 0 < height := by
  unfold create at h
  split at h
  · cases h
  · split at h
    · cases h
    · omega

/-- Where there is room for it, the host makes no difference to a screen. -/
theorem eq_of_create {room room' : Room} {width height : Int} {s s' : Screen}
    (h : create room width height = .ok s) (h' : create room' width height = .ok s') : s' = s := by
  obtain ⟨hw, ha, hh⟩ := sides_of_create h
  rw [create_of_sides hw ha hh] at h h'
  split at h
  · cases h
  · rw [if_neg ‹_›] at h'
    split at h <;> split at h' <;> cases h <;> cases h'
    rfl

def clear (s : Screen) : Screen :=
  blank s.width s.height s.width_pos s.aligned s.height_pos

/-! ## Drawing -/

def maxSpriteRows : Nat := 15

/-- A coordinate modulo a side. -/
def wrap (k : Int) (side : Nat) : Except Misuse Nat :=
  if side = 0 then .error .zeroSide else .ok (k % side).toNat

/-- XORs a mask onto one byte of a row; also tells whether a lit pixel went dark. -/
def flip (s : Screen) (row index : Nat) (mask : UInt8) : Except Misuse (Screen × Bool) :=
  if hr : row < s.height then
    if hq : index < s.stride then
      have hk := s.index_lt hr hq
      let byte := s.bytes[row * s.stride + index]
      .ok ({ s with
        bytes := s.bytes.set (row * s.stride + index) (byte ^^^ mask)
        size_bytes := (Array.size_set hk).trans s.size_bytes }, byte &&& mask != 0)
    else .error .noSuchByte
  else .error .noSuchLine

/-- One sprite byte at a row and a column of the screen. -/
def drawByte (s : Screen) (row col : Nat) (b : UInt8) : Except Misuse (Screen × Bool) := do
  let index := col / 8
  let shift := UInt8.ofNat (col % 8)
  let (s, erased) ← s.flip row index (b >>> shift)
  if shift = 0 then return (s, erased)
  else
    let next ← wrap (index + 1 : Nat) s.stride
    let (s, erased') ← s.flip row next (b <<< (8 - shift))
    return (s, erased || erased')

/-- The bytes of a sprite in consecutive rows. -/
def drawRows (s : Screen) (row : Int) (col : Nat) :
    List UInt8 → Except Misuse (Screen × Bool)
  | [] => return (s, false)
  | b :: bs => do
    let line ← wrap row s.height
    let (s, erased) ← s.drawByte line col b
    let (s, erased') ← s.drawRows (row + 1) col bs
    return (s, erased || erased')

/-- Draws a sprite, with coordinates taken modulo the size; also tells whether a lit pixel went
dark. -/
def draw (s : Screen) (row col : Int) (sprite : List Int) : Except Misuse (Screen × Bool) :=
  if maxSpriteRows < sprite.length then .error (.spriteTooTall sprite.length)
  else do s.drawRows row (← wrap col s.width) (sprite.map UInt8.ofInt)

/-! ## Reading -/

/-- Pixel `j` of a storage byte, from the left. -/
def bitAt (b : UInt8) (j : Nat) : Bool :=
  b &&& (0x80 >>> UInt8.ofNat j) != 0

def pixel (s : Screen) (row col : Int) : Bool :=
  let r := (row % s.height).toNat
  let c := (col % s.width).toNat
  bitAt (s.bytes.getD (r * s.stride + c / 8) 0) (c % 8)

def rowBytes (s : Screen) (row : Int) : List UInt8 :=
  let r := (row % s.height).toNat
  (s.bytes.extract (r * s.stride) (r * s.stride + s.stride)).toList

def framebuffer (s : Screen) : List UInt8 :=
  s.bytes.toList

def popCount (b : UInt8) : Nat :=
  (List.range 8).countP (bitAt b)

def lit (s : Screen) : Nat :=
  (s.framebuffer.map popCount).foldr (· + ·) 0

/-- The column of the first pixel of a kind, row by row. -/
def firstColumn? (s : Screen) (p : Bool → Bool) : Option Nat :=
  (List.range s.height).findSome? fun (row : Nat) =>
    (List.range s.width).find? fun (col : Nat) => p (s.pixel row col)

def rowText (s : Screen) (on off : String) (row : Nat) : String :=
  String.join ((List.range s.width).map fun (c : Nat) => if s.pixel row c then on else off)

def text (s : Screen) (on : String := "#") (off : String := ".") : String :=
  "\n".intercalate ((List.range s.height).map (s.rowText on off))

end Screen

end Chip8
