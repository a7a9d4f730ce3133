/-!
# Timers

Two byte counters that count down to zero, one per tick. The machine hears a
tone while the sound timer is not zero.
-/

namespace Chip8

structure Timers where
  delay : UInt8
  sound : UInt8
  deriving DecidableEq, Repr

namespace Timers

def stopped : Timers :=
  ⟨0, 0⟩

def setDelay (t : Timers) (value : Int) : Timers :=
  { t with delay := UInt8.ofInt value }

def setSound (t : Timers) (value : Int) : Timers :=
  { t with sound := UInt8.ofInt value }

def sounding (t : Timers) : Bool :=
  t.sound != 0

/-- One less, but never below zero. -/
def countDown (b : UInt8) : UInt8 :=
  if b = 0 then 0 else b - 1

def tick (t : Timers) : Timers :=
  ⟨countDown t.delay, countDown t.sound⟩

theorem toNat_countDown (b : UInt8) : (countDown b).toNat = b.toNat - 1 := by
  simp only [countDown]
  split
  · simp_all
  · rename_i h
    have : 1 ≤ b := by
      rcases Nat.eq_zero_or_pos b.toNat with h0 | h0
      · exact absurd (UInt8.toNat_inj.1 (by simpa using h0)) h
      · exact UInt8.le_iff_toNat_le.2 h0
    rw [UInt8.toNat_sub_of_le _ _ this]; rfl

end Timers

end Chip8
