import Chip8.Proofs.Action
import Chip8.Proofs.Operands

/-!
# One step taken apart

A step fetches, records and executes. `fetched` is the instruction that memory holds at the
counter, `launched` the machine on which it is executed; `step_eq` puts a step together from
them. A failed fetch leaves the machine as it was.
-/

namespace Chip8.Machine

/-- The instruction in the word at the counter. -/
def fetched (m : Machine) : Except Failure Instr :=
  match m.memory.read16 m.registers.pc.toNat with
  | .ok w => Instr.decode w m.memory.size
  | .error f => .error (.fault f)

theorem fetch_eq (m : Machine) :
    fetch m = match m.fetched with
      | .ok i => .ok i m
      | .error e => .error e m := by
  unfold fetch fetched Memory.read16
  simp only [bind_apply, counter_apply, readCell]
  cases hh : m.memory.read8 m.registers.pc.toNat with
  | error f => rfl
  | ok high =>
    simp only
    cases hl : m.memory.read8 (m.registers.pc.toNat + 1) with
    | error f => rfl
    | ok low =>
      simp only [get_apply, Instr.decodeBytes_uInt8]
      show _ = match Instr.decode ((256 * high.toNat + low.toNat : Nat) : Int) m.memory.size with
        | .ok i => EStateM.Result.ok i m
        | .error e => .error e m
      rw [Int.natCast_add, Int.natCast_mul]
      show (match Instr.decode (256 * high.toNat + low.toNat) m.memory.size with
        | .ok i => (pure i : Action Instr)
        | .error e => throw e) m = _
      cases Instr.decode (256 * (high.toNat : Int) + low.toNat) m.memory.size <;> rfl

theorem fetch_eq_ok_iff {m m' : Machine} {i : Instr} :
    fetch m = .ok i m' ↔ m.fetched = .ok i ∧ m' = m := by
  rw [fetch_eq]
  cases m.fetched with
  | ok j => simp [eq_comm]
  | error e => simp

theorem read16_lt {m : Memory} {a : Int} {w : Nat} (h : m.read16 a = .ok w) : w ≤ 0xFFFF := by
  unfold Memory.read16 at h
  cases hh : m.read8 a with
  | error f => rw [hh] at h; cases h
  | ok high =>
    cases hl : m.read8 (a + 1) with
    | error f => rw [hh, hl] at h; cases h
    | ok low =>
      rw [hh, hl] at h
      cases h
      have := high.toNat_lt
      have := low.toNat_lt
      omega

theorem fits_of_fetched {m : Machine} {i : Instr} (h : m.fetched = .ok i) : i.Fits := by
  unfold fetched at h
  split at h
  · exact Instr.fits_of_decode h
  · cases h

theorem exists_fault_of_fetched {m : Machine} {e : Failure} (h : m.fetched = .error e) :
    ∃ f, e = .fault f := by
  unfold fetched at h
  split at h
  · rename_i w hw
    have := read16_lt hw
    exact Instr.exists_fault_of_decode ⟨by omega, by omega⟩ h
  · cases h; exact ⟨_, rfl⟩

/-! ## The step -/

/-- The machine about to execute `i`: recorded, with the counter past the instruction. -/
def launched (m : Machine) (i : Instr) : Machine :=
  { m with
    registers := m.registers.setCounter (m.registers.pc.toNat + 2)
    trace := if m.tracing then m.trace.push ⟨m.registers, i⟩ else m.trace }

/-- The counter put back to that of `m`. -/
def rewound (m n : Machine) : Machine :=
  { n with registers := n.registers.setCounter m.registers.pc.toNat }

theorem executeFrom_eq (m : Machine) (i : Instr) :
    (do record i; executeFrom m.registers.pc i; return i : Action Instr) m =
      match execute i (m.launched i) with
      | .ok _ n => .ok i n
      | .error (.fault f) n => .error (.fault f) (m.rewound n)
      | .error (.misuse u) n => .error (.misuse u) n := by
  have hl : m.launched i = { (if m.tracing then { m with trace := m.trace.push ⟨m.registers, i⟩ }
      else m) with registers := m.registers.setCounter (m.registers.pc.toNat + 2) } := by
    unfold launched
    split <;> rfl
  have hr : (if m.tracing then { m with trace := m.trace.push ⟨m.registers, i⟩ }
      else m).registers = m.registers := by
    split <;> rfl
  simp only [bind_apply, record, modify_apply, executeFrom, setCounter_apply, hr, ← hl]
  cases execute i (m.launched i) with
  | ok _ n => rfl
  | error e n => cases e <;> rfl

theorem step_eq (m : Machine) :
    step m = match m.fetched with
      | .error e => .error e m
      | .ok i =>
        match execute i (m.launched i) with
        | .ok _ n => .ok i n
        | .error (.fault f) n => .error (.fault f) (m.rewound n)
        | .error (.misuse u) n => .error (.misuse u) n := by
  unfold step
  rw [bind_apply, counter_apply]
  simp only
  rw [bind_apply, fetch_eq]
  cases m.fetched with
  | error e => rfl
  | ok i => exact executeFrom_eq m i

theorem step_eq_ok_iff {m m' : Machine} {i : Instr} :
    step m = .ok i m' ↔ m.fetched = .ok i ∧ execute i (m.launched i) = .ok () m' := by
  rw [step_eq]
  cases hf : m.fetched with
  | error e => simp
  | ok j =>
    simp only [Except.ok.injEq]
    constructor
    · intro h
      split at h
      · rename_i hx; cases h; exact ⟨rfl, hx⟩
      · cases h
      · cases h
    · rintro ⟨rfl, hx⟩
      rw [hx]

/-- A step fails in its fetch, or else its instruction does and the counter is put back. -/
theorem step_eq_fault_iff {m m' : Machine} {f : Fault} :
    step m = .error (.fault f) m' ↔
      (m.fetched = .error (.fault f) ∧ m' = m) ∨
      ∃ i n, m.fetched = .ok i ∧ execute i (m.launched i) = .error (.fault f) n ∧
        m' = m.rewound n := by
  rw [step_eq]
  cases hf : m.fetched with
  | error e => simp [eq_comm]
  | ok j =>
    simp only [reduceCtorEq, false_and, false_or, Except.ok.injEq]
    constructor
    · intro h
      split at h
      · cases h
      · rename_i hx; cases h; exact ⟨j, _, rfl, hx, rfl⟩
      · cases h
    · rintro ⟨_, n, rfl, hx, rfl⟩
      rw [hx]

end Chip8.Machine
