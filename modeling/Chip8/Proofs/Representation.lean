import Chip8.Proofs.Reset
import Chip8.Proofs.Views

/-!
# Machines in plain numbers

`readout` shows every component of a machine as whole numbers and lists of them. `Readout.Fits`
says how many there are in each component and how large they are; it holds after everything that
can be done to a machine, with whatever numbers (`accessed_fits`).
-/

namespace Chip8

/-! ## Rows of the screen -/

namespace Screen

/-- The storage bytes of each row. -/
def rows (s : Screen) : List (List UInt8) :=
  (List.range s.height).map fun (r : Nat) => s.rowBytes r

theorem rowBytes_eq {s : Screen} {r : Nat} (hr : r < s.height) :
    s.rowBytes r = (s.bytes.extract (r * s.stride) ((r + 1) * s.stride)).toList := by
  have hrow : ((r : Int) % s.height).toNat = r := by
    rw [Int.emod_eq_of_lt (Int.natCast_nonneg r) (Int.ofNat_lt.2 hr), Int.toNat_natCast]
  unfold rowBytes
  rw [hrow, Nat.succ_mul]

theorem length_row {s : Screen} {row : List UInt8} (h : row ∈ s.rows) :
    row.length = s.stride := by
  obtain ⟨r, -, rfl⟩ := List.mem_map.1 h
  exact s.length_rowBytes r

/-- The rows one after the other are the picture. -/
theorem flatten_rows (s : Screen) : s.rows.flatten = s.framebuffer := by
  have hfirst : ∀ k ≤ s.height, ((List.range k).map fun (r : Nat) => s.rowBytes r).flatten =
      (s.bytes.extract 0 (k * s.stride)).toList := by
    intro k hk
    induction k with
    | zero => simp
    | succ k ih =>
      rw [List.range_succ, List.map_append, List.flatten_append, ih (by omega), List.map_singleton,
        List.flatten_singleton, rowBytes_eq (by omega), ← Array.toList_append,
        Array.extract_append_extract, Nat.zero_min,
        Nat.max_eq_right (Nat.mul_le_mul_right s.stride (Nat.le_succ k))]
  unfold rows framebuffer
  rw [hfirst s.height (Nat.le_refl _), ← s.size_eq, Array.extract_size]

end Screen

/-! ## Readouts -/

/-- The components of a machine, all in whole numbers. -/
structure Readout where
  v : List Int
  i : Int
  pc : Int
  delay : Int
  sound : Int
  memory : List Int
  /-- The oldest address first. -/
  stack : List Int
  rows : List (List Int)
  framebuffer : List Int
  deriving DecidableEq, Repr

/-- Bytes as whole numbers. -/
def Byte.ints (bs : List UInt8) : List Int :=
  bs.map fun b => b.toNat

theorem Byte.lt_of_mem_ints {bs : List UInt8} {v : Int} (h : v ∈ Byte.ints bs) :
    0 ≤ v ∧ v ≤ 255 := by
  obtain ⟨b, -, rfl⟩ := List.mem_map.1 h
  have hlt := b.toNat_lt
  omega

def Machine.readout (m : Machine) : Readout where
  v := Byte.ints m.registers.v.toList
  i := m.registers.i.toNat
  pc := m.registers.pc.toNat
  delay := m.timers.delay.toNat
  sound := m.timers.sound.toNat
  memory := Byte.ints m.memory.cells.toList
  stack := m.stack.entries.map fun a => a.toNat
  rows := m.screen.rows.map Byte.ints
  framebuffer := Byte.ints m.screen.framebuffer

namespace Readout

/-- There are as many numbers as the configuration says, and each is of the right size. -/
structure Fits (c : Config) (r : Readout) : Prop where
  registers : r.v.length = 16 ∧ ∀ b ∈ r.v, 0 ≤ b ∧ b ≤ 255
  index : 0 ≤ r.i ∧ r.i ≤ 65535
  counter : 0 ≤ r.pc ∧ r.pc ≤ 65535
  delay : 0 ≤ r.delay ∧ r.delay ≤ 255
  sound : 0 ≤ r.sound ∧ r.sound ≤ 255
  memory : (r.memory.length : Int) = c.memorySize ∧ ∀ b ∈ r.memory, 0 ≤ b ∧ b ≤ 255
  stack : (r.stack.length : Int) ≤ c.stackDepth ∧ ∀ a ∈ r.stack, 0 ≤ a ∧ a ≤ 65535
  rows : (r.rows.length : Int) = c.displayHeight ∧
    ∀ row ∈ r.rows, (row.length : Int) = c.displayWidth / 8 ∧ ∀ b ∈ row, 0 ≤ b ∧ b ≤ 255
  framebuffer : r.framebuffer = r.rows.flatten

end Readout

namespace Machine

variable {room : Room} {c : Config} {m : Machine}

theorem Sound.readout_fits (h : Sound c m) : m.readout.Fits c where
  registers := ⟨by simp [readout, Byte.ints], fun _ hb => Byte.lt_of_mem_ints hb⟩
  index := by
    have hlt := m.registers.i.toNat_lt
    simp only [readout]
    omega
  counter := by
    have hlt := m.registers.pc.toNat_lt
    simp only [readout]
    omega
  delay := by
    have hlt := m.timers.delay.toNat_lt
    simp only [readout]
    omega
  sound := by
    have hlt := m.timers.sound.toNat_lt
    simp only [readout]
    omega
  memory := by
    refine ⟨?_, fun _ hb => Byte.lt_of_mem_ints hb⟩
    rw [← h.memory]
    simp [readout, Byte.ints, Memory.size]
  stack := by
    refine ⟨?_, fun v hv => ?_⟩
    · have hdepth := h.depth
      simpa [readout, CallStack.entries, CallStack.depth] using hdepth
    · obtain ⟨a, -, rfl⟩ := List.mem_map.1 hv
      have hlt := a.toNat_lt
      omega
  rows := by
    refine ⟨?_, fun row hrow => ?_⟩
    · rw [← h.height]
      simp [readout, Screen.rows]
    · obtain ⟨bytes, hbytes, rfl⟩ := List.mem_map.1 hrow
      refine ⟨?_, fun _ hb => Byte.lt_of_mem_ints hb⟩
      unfold Byte.ints
      rw [List.length_map, Screen.length_row hbytes, ← h.width]
      rfl
  framebuffer := by
    simp only [readout]
    rw [← m.screen.flatten_rows]
    exact List.map_flatten

/-! ## Accesses -/

/-- What can be done to a machine: commands, and what else its components offer. -/
inductive Access where
  | command (c : Command)
  | setFlag (value : Int)
  | clearRegisters
  | emptyStack
  | stopTimers
  deriving DecidableEq, Repr

def access : Access → Action Unit
  | .command c => do let _ ← perform c
  | .setFlag value => setFlag value
  | .clearRegisters => modify fun m => { m with registers := Registers.cleared }
  | .emptyStack => modify fun m => { m with stack := m.stack.reset }
  | .stopTimers => modify fun m => { m with timers := Timers.stopped }

/-- The machine after any accesses, failed ones included. -/
def accessed (m : Machine) (as : List Access) : Machine :=
  as.foldl (fun m a => after (access a) m) m

theorem CommandClosed.access {R : Machine → Machine → Prop} (hR : CommandClosed R) (a : Access) :
    Carries R (access a) := by
  cases a with
  | command c => exact hR.bind (hR.perform c) fun _ => hR.pure ()
  | setFlag value => exact Carries.modify fun m => hR.registers m _
  | clearRegisters => exact Carries.modify fun m => hR.registers m _
  | emptyStack => exact Carries.modify hR.emptied
  | stopTimers => exact Carries.modify fun m => hR.timers m _

theorem CommandClosed.accessed {R : Machine → Machine → Prop} (hR : CommandClosed R) (m : Machine)
    (as : List Access) : R m (m.accessed as) := by
  induction as generalizing m with
  | nil => exact hR.refl m
  | cons a as ih => exact hR.trans (hR.access a m) (ih (after (Machine.access a) m))

/-- Every number in a machine keeps its range, and every component its size. Take any accepted
configuration with a possible screen. A host can make its machine if it can hold it. And after any
accesses, whatever the numbers they are called with and whether they succeed or fail, it shows
sixteen bytes as its registers, two words, two bytes for the timers, as many bytes of memory as the
configuration says, no more addresses on the stack than it allows, each a word, and as many rows as
it says of an eighth as many bytes as it says pixels, which make up the picture. -/
theorem accessed_fits (room : Room) (ha : c.rejection? = none) (hd : c.Displayable) :
    (c.Holdable room → ∃ m, create room c = .ok m) ∧
    ∀ m, create room c = .ok m → ∀ as : List Access, (m.accessed as).readout.Fits c := by
  have hacc := Config.rejection?_eq_none_iff.1 ha
  refine ⟨fun hh => ?_, fun m hm as => ?_⟩
  · obtain ⟨m, hm, -⟩ := create_of_holdable hacc hd hh
    exact ⟨m, hm⟩
  · have hclosed := commandClosed_sound c (Int.le_of_lt hacc.depth_pos)
    exact (hclosed.accessed m as (sound_of_create hacc hd hm)).readout_fits

/-- Numbers that are too large, or negative, and operands that name nothing. -/
def reckless : List Access :=
  [.command (.setRegister 3 (-1)), .command (.setRegister 16 1), .command (.setIndex 70000),
    .command (.execute (.instr (.addr .jump (-2)))), .command (.poke 95 1000),
    .command (.poke (-1) 5), .command (.execute (.instr (.reg .load 40))), .setFlag 257,
    .command (.push (-1)), .command (.setDelay 511), .command (.draw (-1) 70000 [-1])]

/-- What they leave. -/
theorem accessed_fits_reckless :
    ∃ m, create .unlimited small = .ok m ∧ (m.accessed reckless).readout.Fits small ∧
      (m.accessed reckless).readout.v = [0, 0, 0, 255, 0, 0, 0, 0, 0, 0, 0, 0, 0, 0, 0, 1] ∧
      (m.accessed reckless).readout.i = 4464 ∧ (m.accessed reckless).readout.pc = 65534 ∧
      (m.accessed reckless).readout.memory.getLast? = some 232 ∧
      (m.accessed reckless).readout.stack = [65535] ∧
      (m.accessed reckless).readout.delay = 255 ∧
      (m.accessed reckless).readout.rows = [[255]] := by
  obtain ⟨m, hm, hshown⟩ := exists_create .unlimited small
    (fun m => decide ((m.accessed reckless).readout.v =
        [0, 0, 0, 255, 0, 0, 0, 0, 0, 0, 0, 0, 0, 0, 0, 1] ∧
      (m.accessed reckless).readout.i = 4464 ∧ (m.accessed reckless).readout.pc = 65534 ∧
      (m.accessed reckless).readout.memory.getLast? = some 232 ∧
      (m.accessed reckless).readout.stack = [65535] ∧
      (m.accessed reckless).readout.delay = 255 ∧
      (m.accessed reckless).readout.rows = [[255]]))
    (by decide +kernel)
  obtain ⟨-, hfits⟩ := accessed_fits (c := small) .unlimited (by decide)
    ⟨by decide, by decide, by decide⟩
  exact ⟨m, hm, hfits m hm reckless, of_decide_eq_true hshown⟩

end Machine

end Chip8
