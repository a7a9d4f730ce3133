/-!
# Random bytes

The Mersenne Twister with 624 words of 32 bits. `seeded` starts it from a whole
number: the 32-bit words of the magnitude, least significant first, are stirred
into a fixed table. `next` gives the next word, `byte` a uniform byte: the high
nine bits of the words in turn, until they are below 256.
-/

namespace Chip8

/-- The table and the number of its words that have been given out. -/
structure Random where
  table : Array UInt32
  used : Nat
  deriving DecidableEq, Repr

namespace Random

def length : Nat := 624

/-- The distance of the word that is mixed in. -/
def lag : Nat := 397

def word (t : Array UInt32) (k : Nat) : UInt32 :=
  t.getD k 0

/-! ## Seeding -/

/-- A word folded onto itself, from which the next table word is made. -/
def fold (w : UInt32) : UInt32 :=
  w ^^^ (w >>> 30)

/-- The table grown from one word by a linear recurrence. -/
def grow (first : UInt32) : Array UInt32 :=
  (List.range (length - 1)).foldl
    (fun t k => t.push (1812433253 * fold (word t k) + UInt32.ofNat (k + 1))) #[first]

/-- Words of a number in base 2^32, least significant first; zero has one word. -/
def words (n : Nat) : List UInt32 :=
  if n < 0x100000000 then [UInt32.ofNat n]
  else UInt32.ofNat (n % 0x100000000) :: words (n / 0x100000000)
termination_by n
decreasing_by omega

/-- After the last word comes the second, with the last one copied to the first. -/
def wrap (t : Array UInt32) (i : Nat) : Array UInt32 × Nat :=
  if i < length then (t, i) else (t.setIfInBounds 0 (word t (length - 1)), 1)

/-- Stirs key words in, `n` times from table word `i` and key word `j`. -/
def stirKey (key : Array UInt32) :
    (n : Nat) → Array UInt32 → (i j : Nat) → Array UInt32 × Nat
  | 0, t, i, _ => (t, i)
  | n + 1, t, i, j =>
    let w := (word t i ^^^ (fold (word t (i - 1)) * 1664525)) + word key j + UInt32.ofNat j
    let (t, i) := wrap (t.setIfInBounds i w) (i + 1)
    stirKey key n t i (if j + 1 < key.size then j + 1 else 0)

/-- Stirs the positions in, `n` times from table word `i`. -/
def stirIndex : (n : Nat) → Array UInt32 → (i : Nat) → Array UInt32
  | 0, t, _ => t
  | n + 1, t, i =>
    let w := (word t i ^^^ (fold (word t (i - 1)) * 1566083941)) - UInt32.ofNat i
    let (t, i) := wrap (t.setIfInBounds i w) (i + 1)
    stirIndex n t i

def seeded (seed : Int) : Random :=
  let key := (words seed.natAbs).toArray
  let (t, i) := stirKey key (max length key.size) (grow 19650218) 1 0
  ⟨(stirIndex (length - 1) t i).setIfInBounds 0 0x80000000, length⟩

/-! ## Drawing -/

/-- The high bit of one word and the low bits of the next, times the twist matrix. -/
def twist (high low : UInt32) : UInt32 :=
  let y := (high &&& 0x80000000) ||| (low &&& 0x7FFFFFFF)
  (y >>> 1) ^^^ (if y &&& 1 = 0 then 0 else 0x9908B0DF)

/-- A fresh table, each word made in place from itself, its neighbour and the word at the lag. -/
def refill (t : Array UInt32) : Array UInt32 :=
  (List.range length).foldl
    (fun t k => t.setIfInBounds k
      (word t ((k + lag) % length) ^^^ twist (word t k) (word t ((k + 1) % length)))) t

/-- The tempering of a table word. -/
def temper (w : UInt32) : UInt32 :=
  let w := w ^^^ (w >>> 11)
  let w := w ^^^ ((w <<< 7) &&& 0x9D2C5680)
  let w := w ^^^ ((w <<< 15) &&& 0xEFC60000)
  w ^^^ (w >>> 18)

def next (g : Random) : UInt32 × Random :=
  let g := if g.used < length then g else ⟨refill g.table, 0⟩
  (temper (word g.table g.used), { g with used := g.used + 1 })

/-- A byte from at most `tries` words; the last word is cut to eight bits. -/
def byteWithin : (tries : Nat) → Random → UInt8 × Random
  | 0, g => let (w, g) := g.next; ((w >>> 24).toUInt8, g)
  | tries + 1, g =>
    let (w, g) := g.next
    if w >>> 23 < 256 then ((w >>> 23).toUInt8, g) else byteWithin tries g

/-- Every second word serves, so the bound is never met. -/
def byte (g : Random) : UInt8 × Random :=
  byteWithin 65536 g

end Random

end Chip8
