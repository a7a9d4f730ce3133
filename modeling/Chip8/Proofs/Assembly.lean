import Chip8.Proofs.Decoding
import Chip8.Proofs.Reset

/-!
# Programs in memory

`assemble` writes a list of instructions as the bytes of their words, the high byte of each first.
Where such an image has been loaded, each of its words can be read back (`read16_place_bigEndian`),
at odd addresses as well as at even ones, and is fetched as the instruction that it was assembled
from.
-/

namespace Chip8

/-! ## Words -/

/-- The two bytes of each word, the high one first. -/
def bigEndian (ws : List Nat) : List UInt8 :=
  ws.flatMap fun w => [UInt8.ofNat (w / 256), UInt8.ofNat w]

theorem length_bigEndian (ws : List Nat) : (bigEndian ws).length = 2 * ws.length := by
  induction ws with
  | nil => rfl
  | cons w ws ih =>
    show (bigEndian ws).length + 2 = 2 * (ws.length + 1)
    omega

/-- The bytes of one word among the others. -/
theorem getD_bigEndian {ws : List Nat} {k : Nat} (hk : k < ws.length) :
    (bigEndian ws).getD (2 * k) 0 = UInt8.ofNat (ws[k] / 256) ∧
      (bigEndian ws).getD (2 * k + 1) 0 = UInt8.ofNat ws[k] := by
  induction ws generalizing k with
  | nil => exact absurd hk (Nat.not_lt_zero k)
  | cons w ws ih =>
    cases k with
    | zero => exact ⟨rfl, rfl⟩
    | succ k => exact ih (Nat.lt_of_succ_lt_succ hk)

theorem bytes_toNat {w : Nat} (hw : w ≤ 0xFFFF) :
    256 * (UInt8.ofNat (w / 256)).toNat + (UInt8.ofNat w).toNat = w := by
  rw [UInt8.toNat_ofNat', UInt8.toNat_ofNat']
  omega

namespace Memory

variable {m : Memory} {base : Nat}

theorem load_natCast {bs : List UInt8} (h : base + bs.length ≤ m.size) :
    m.load bs base = .ok (m.place base bs) := by
  rw [load_of_room (Int.natCast_nonneg base) (by omega), Int.toNat_natCast]

/-- The words of an image are read where they have been placed. -/
theorem read16_place_bigEndian {ws : List Nat} (hws : ∀ w ∈ ws, w ≤ 0xFFFF)
    (h : base + 2 * ws.length ≤ m.size) {k : Nat} (hk : k < ws.length) :
    (m.place base (bigEndian ws)).read16 (base + 2 * k : Nat) = .ok ws[k] := by
  have hlen := length_bigEndian ws
  have hroom : base + (bigEndian ws).length ≤ m.size := by rw [hlen]; exact h
  have hcell {j : Nat} (hj : j < 2 * ws.length) :
      (m.place base (bigEndian ws)).read8 (base + j : Nat) =
        .ok ((bigEndian ws).getD j 0) := by
    rw [read8_natCast, size_place, if_pos (by omega), cell_place m base _ _ hroom,
      if_pos ⟨by omega, by omega⟩, Nat.add_sub_cancel_left]
  obtain ⟨hhigh, hlow⟩ := getD_bigEndian hk
  have hnext : ((base + 2 * k : Nat) : Int) + 1 = (base + (2 * k + 1) : Nat) := rfl
  unfold read16
  rw [hnext, hcell (by omega), hcell (by omega), hhigh, hlow]
  exact congrArg Except.ok (bytes_toNat (hws _ (List.getElem_mem hk)))

end Memory

/-! ## Instructions -/

namespace Instr

/-- The instruction is written as a word that means the instruction again, with addresses below
`limit`: all operands fit, and the word is not one of the two of `SYS` that have another meaning. -/
structure Faithful (limit : Int) (i : Instr) : Prop where
  fits : i.Fits
  address : ∀ a, i.address? = some a → a < limit
  not_clear : i ≠ .addr .sys 0x0E0
  not_ret : i ≠ .addr .sys 0x0EE

theorem Faithful.decode_word {limit : Int} {i : Instr} (h : i.Faithful limit) :
    decode i.word limit = .ok i := by
  have hw := word_le h.fits
  have hfound := (ofWord?_eq_some_iff hw).2
    ⟨reads_word h.fits, word_ne_of_sys h.not_clear h.not_ret h.fits⟩
  rw [decode_of_word hw, hfound]
  cases ha : i.address? with
  | none => simp only [ha]
  | some a => simp only [ha, if_pos (h.address a ha)]

end Instr

/-- The image of a program; the first instruction whose operands do not fit is refused. -/
def assemble (is : List Instr) : Except Failure (List UInt8) := do
  return bigEndian (← is.mapM Instr.encode)

theorem mapM_encode_of_fits {is : List Instr} (h : ∀ i ∈ is, i.Fits) :
    is.mapM Instr.encode = .ok (is.map Instr.word) := by
  induction is with
  | nil => rfl
  | cons i is ih =>
    rw [List.mapM_cons, Instr.encode_of_fits (h i List.mem_cons_self),
      ih fun j hj => h j (List.mem_cons_of_mem i hj)]
    rfl

theorem assemble_of_fits {is : List Instr} (h : ∀ i ∈ is, i.Fits) :
    assemble is = .ok (bigEndian (is.map Instr.word)) := by
  unfold assemble
  rw [mapM_encode_of_fits h]
  rfl

namespace Machine

variable {m n : Machine}

/-! ## Fetching -/

/-- The counter set to an address. -/
def pointed (m : Machine) (a : Int) : Machine :=
  { m with registers := m.registers.setCounter a }

theorem counter_pointed {a : Nat} (ha : a ≤ 0xFFFF) : (m.pointed a).registers.pc.toNat = a := by
  have hpc : (m.pointed a).registers.pc = UInt16.ofInt a := rfl
  rw [hpc, Word.toNat_ofInt]
  omega

theorem load_natCast {bs : List UInt8} {base : Nat} (h : base + bs.length ≤ m.memory.size) :
    load bs (some (base : Int)) m = .ok () { m with memory := m.memory.place base bs } := by
  unfold load
  rw [Option.getD_some, Memory.load_natCast h]

/-- Whatever word is at an address, it is fetched from there. -/
theorem fetch_pointed {a w : Nat} {i : Instr} (ha : a ≤ 0xFFFF) (hw : m.memory.read16 a = .ok w)
    (hi : Instr.decode w m.memory.size = .ok i) : fetch (m.pointed a) = .ok i (m.pointed a) := by
  refine fetch_eq_ok_iff.2 ⟨?_, rfl⟩
  have hread : (m.pointed a).memory.read16 a = .ok w := hw
  unfold fetched
  rw [counter_pointed ha, hread]
  exact hi

theorem fetch_assembled {is : List Instr} {base : Nat}
    (his : ∀ i ∈ is, i.Faithful m.memory.size) (hroom : base + 2 * is.length ≤ m.memory.size)
    (hsize : m.memory.size ≤ 0xFFFF) {k : Nat} (hk : k < is.length) :
    let n := { m with memory := m.memory.place base (bigEndian (is.map Instr.word)) }
    fetch (n.pointed (base + 2 * k : Nat)) = .ok is[k] (n.pointed (base + 2 * k : Nat)) := by
  intro n
  have hword : ∀ w ∈ is.map Instr.word, w ≤ 0xFFFF := by
    intro w hw
    obtain ⟨i, hi, rfl⟩ := List.mem_map.1 hw
    exact Instr.word_le (his i hi).fits
  have hlen : (is.map Instr.word).length = is.length := List.length_map _
  have hread := Memory.read16_place_bigEndian (k := k) hword (by rw [hlen]; exact hroom)
    (by rw [hlen]; exact hk)
  rw [List.getElem_map] at hread
  refine fetch_pointed (by omega) hread ?_
  show Instr.decode _ ((m.memory.place base _).size : Nat) = _
  rw [Memory.size_place]
  exact (his _ (List.getElem_mem hk)).decode_word

/-- Assemble, load, fetch. In any machine, a program whose instructions are written faithfully and
which ends inside memory can be assembled and be loaded at its base, whether that is even or odd;
and then, with the counter at the `k`-th word, its `k`-th instruction is fetched. Whatever else is
in memory, and wherever the counter is, fetching gives what decoding the word there gives, or fails
as reading or decoding that word fails; and it changes nothing. -/
theorem assembled_is_fetched (hm : m.Reachable) :
    (∀ (base : Nat) (is : List Instr), (base : Int) + 2 * is.length ≤ m.config.memorySize →
      (∀ i ∈ is, i.Faithful m.config.memorySize) →
      ∃ image n, assemble is = .ok image ∧ load image (some (base : Int)) m = .ok () n ∧
        ∀ k (hk : k < is.length),
          fetch (n.pointed (base + 2 * k)) = .ok is[k] (n.pointed (base + 2 * k))) ∧
    fetch m = match m.memory.read16 m.registers.pc.toNat with
      | .error f => .error (.fault f) m
      | .ok w =>
        match Instr.decode w m.config.memorySize with
        | .error e => .error e m
        | .ok i => .ok i m := by
  obtain ⟨ha, hsize⟩ := hm.built
  have hmax := ha.size_le
  unfold Config.maxMemory at hmax
  rw [← hsize] at hmax ⊢
  refine ⟨fun base is hroom his => ?_, ?_⟩
  · have hlen : (bigEndian (is.map Instr.word)).length = 2 * is.length := by
      rw [length_bigEndian, List.length_map]
    exact ⟨_, _, assemble_of_fits fun i hi => (his i hi).fits, load_natCast (by omega),
      fun k hk => fetch_assembled his (by omega) (by omega) hk⟩
  · rw [fetch_eq]
    unfold fetched
    cases m.memory.read16 m.registers.pc.toNat with
    | error f => rfl
    | ok w =>
      dsimp only
      cases Instr.decode w m.memory.size <;> rfl

/-- A call of the last address and a sprite. -/
def unaligned : List Instr :=
  [.addr .call 0x05F, .draw 1 2 3]

theorem faithful_of_mem_unaligned : ∀ i ∈ unaligned, i.Faithful 96 := by
  intro i hi
  simp only [unaligned, List.mem_cons, List.not_mem_nil, or_false] at hi
  rcases hi with rfl | rfl
  · refine ⟨Instr.fits_iff.2 ⟨by decide, by decide⟩, fun a ha => ?_, by decide, by decide⟩
    cases ha
    decide
  · exact ⟨Instr.fits_iff.2 ⟨⟨by decide, by decide⟩, ⟨by decide, by decide⟩, by decide, by decide⟩,
      nofun, by decide, by decide⟩

/-- At an odd base, one byte before the end of memory. -/
theorem assembled_is_fetched_unaligned :
    ∃ m n, m.Reachable ∧ assemble unaligned = .ok [0x20, 0x5F, 0xD1, 0x23] ∧
      load [0x20, 0x5F, 0xD1, 0x23] (some 91) m = .ok () n ∧
      fetch (n.pointed 91) = .ok (.addr .call 0x05F) (n.pointed 91) ∧
      fetch (n.pointed 93) = .ok (.draw 1 2 3) (n.pointed 93) ∧
      fetch m = .error (.fault (.addressOutOfBounds 0xFFF 96)) m := by
  obtain ⟨m, hm, hcheck⟩ := exists_reachable small [.setCounter 0xFFF]
    (fun m => decide (m.config.memorySize = 96 ∧
      m.memory.read16 m.registers.pc.toNat = .error (.addressOutOfBounds 0xFFF 96)))
    (by decide) (by decide +kernel)
  obtain ⟨hsize, hread⟩ := of_decide_eq_true hcheck
  obtain ⟨hload, hfetch⟩ := assembled_is_fetched hm
  rw [hsize] at hload
  rw [hread] at hfetch
  obtain ⟨image, n, himage, hn, hfetched⟩ :=
    hload 91 unaligned (by decide) faithful_of_mem_unaligned
  cases himage
  exact ⟨m, n, hm, rfl, hn, hfetched 0 (by decide), hfetched 1 (by decide), hfetch⟩

end Machine

end Chip8
