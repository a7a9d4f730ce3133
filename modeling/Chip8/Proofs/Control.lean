import Chip8.Proofs.Failing
import Chip8.Proofs.Parts

/-!
# Where instructions lead

`nextAddress m i` is the address at which `m` goes on after instruction `i`, as a whole number of
any size. After a step that succeeds the counter holds that address, cut to a word
(`counter_of_step`). `Restacked m i n` is what the instruction does to the call stack: the call
pushes the address behind it, the return pops one, and no other instruction touches the stack.
-/

namespace Chip8

/-- What a register number reads, and zero if it names no register. -/
def Registers.byte (r : Registers) (x : Int) : UInt8 :=
  (r.read x).toOption.getD 0

theorem Registers.byte_fin (r : Registers) (s : Fin 16) : r.byte (s.val : Int) = r.v.get s := by
  unfold byte read
  rw [slot?_fin]
  rfl

/-- The number of the held key, if one with a number is held. -/
def Keypad.number? (k : Keypad) : Option UInt8 :=
  k.nibble.toOption.join

theorem Keypad.number?_of_nibble {k : Keypad} {v : Option UInt8} (h : k.nibble = .ok v) :
    k.number? = v := by
  unfold number?
  rw [h]
  rfl

theorem Keypad.held_eq_none_iff {k : Keypad} {v : Option UInt8} (h : k.nibble = .ok v) :
    k.held = none ↔ v = none := by
  unfold nibble at h
  split at h
  · rename_i hk
    cases h
    simp [hk]
  · rename_i key hk
    split at h
    · cases h
      simp [hk]
    · cases h

namespace Machine

variable {m n : Machine} {i : Instr}

/-! ## The counter -/

/-- The condition of a skip holds. -/
def skips (m : Machine) : Instr → Bool
  | .reg .skipKey x => m.keypad.number? == some (m.registers.byte x)
  | .reg .skipNoKey x => m.keypad.number? != some (m.registers.byte x)
  | .pair .skipEq x y => m.registers.byte x == m.registers.byte y
  | .pair .skipNe x y => m.registers.byte x != m.registers.byte y
  | .byte .skipEq x kk => ((m.registers.byte x).toNat : Int) == kk
  | .byte .skipNe x kk => ((m.registers.byte x).toNat : Int) != kk
  | _ => false

def nextAddress (m : Machine) : Instr → Int
  | .plain .ret => (m.stack.frames.headD 0).toNat
  | .addr .jump nnn => nnn
  | .addr .call nnn => nnn
  | .addr .jumpV0 nnn => nnn + (m.registers.byte 0).toNat
  | .reg .waitKey _ =>
    if m.keypad.held = none then m.registers.pc.toNat else m.registers.pc.toNat + 2
  | i => if m.skips i then m.registers.pc.toNat + 4 else m.registers.pc.toNat + 2

theorem nextAddress_of_not_mem (h : .setCounter ∉ i.opcode.primitives) :
    m.nextAddress i = m.registers.pc.toNat + 2 := by
  cases i with
  | plain op => cases op <;> first | rfl | simp [Instr.opcode, Opcode.primitives] at h
  | addr op nnn => cases op <;> first | rfl | simp [Instr.opcode, Opcode.primitives] at h
  | reg op x => cases op <;> first | rfl | simp [Instr.opcode, Opcode.primitives] at h
  | pair op x y => cases op <;> first | rfl | simp [Instr.opcode, Opcode.primitives] at h
  | byte op x kk => cases op <;> first | rfl | simp [Instr.opcode, Opcode.primitives] at h
  | draw x y n => rfl

theorem closedOn_counter :
    ClosedOn (· ≠ .setCounter) fun m n => n.registers.pc = m.registers.pc where
  refl _ := rfl
  trans h₁ h₂ := h₂.trans h₁
  setRegister _ _ _ _ := rfl
  setFlag _ _ _ := rfl
  setIndex _ _ _ := rfl
  setCounter h := absurd rfl h
  write _ _ _ _ _ _ := rfl
  push _ _ _ _ _ := rfl
  pop _ _ _ _ _ := rfl
  setDelay _ _ _ := rfl
  setSound _ _ _ := rfl
  clear _ _ := rfl
  draw _ _ _ _ _ _ _ _ := rfl
  random _ _ := rfl

theorem counter_launched (m : Machine) (i : Instr) :
    (m.launched i).registers.pc = UInt16.ofInt (m.registers.pc.toNat + 2) := rfl

/-- An instruction that does not set the counter is followed by the next one. -/
theorem counter_of_not_mem (hi : .setCounter ∉ i.opcode.primitives)
    (h : execute i (m.launched i) = .ok () n) :
    n.registers.pc = UInt16.ofInt (m.nextAddress i) := by
  have hkept := closedOn_counter.execute (fun p hp heq => hi (heq ▸ hp)) (m.launched i)
  rw [after_of_ok h, counter_launched] at hkept
  rw [nextAddress_of_not_mem hi]
  exact hkept

/-- More than the word of a sum is the word of more. -/
theorem ofInt_add_toNat_ofInt (a b : Int) :
    UInt16.ofInt ((UInt16.ofInt a).toNat + b) = UInt16.ofInt (a + b) := by
  apply UInt16.toNat_inj.1
  rw [Word.toNat_ofInt, Word.toNat_ofInt, Word.toNat_ofInt]
  omega

theorem counter_of_skipIf {c : Bool} (hc : m.skips i = c)
    (hi : m.nextAddress i =
      if m.skips i then (m.registers.pc.toNat : Int) + 4 else m.registers.pc.toNat + 2)
    (h : skipIf c (m.launched i) = .ok () n) :
    n.registers.pc = UInt16.ofInt (m.nextAddress i) := by
  rw [skipIf_apply] at h
  rw [hi, hc]
  cases h
  cases c with
  | false => exact counter_launched m i
  | true => exact ofInt_add_toNat_ofInt (m.registers.pc.toNat + 2) 2

theorem frames_of_pop {a : UInt16} (h : pop m = .ok a n) :
    ∃ rest, m.stack.frames = a :: rest ∧
      n = { m with stack := { m.stack with frames := rest } } := by
  unfold pop CallStack.pop at h
  cases hf : m.stack.frames with
  | nil =>
    rw [hf] at h
    cases h
  | cons b rest =>
    rw [hf] at h
    cases h
    exact ⟨rest, rfl, rfl⟩

/-- The held key is looked at without a change. -/
theorem nibble_of_heldKey {α : Type} {k : Option UInt8 → Action α} {x : α}
    (h : (heldKey >>= k) m = .ok x n) : ∃ v, m.keypad.nibble = .ok v ∧ k v m = .ok x n := by
  rw [bind_apply, heldKey_apply] at h
  cases hv : m.keypad.nibble with
  | ok v =>
    rw [hv] at h
    exact ⟨v, rfl, h⟩
  | error f =>
    rw [hv] at h
    cases h

theorem counter_of_executePlain {op : Op.Plain}
    (h : executePlain op (m.launched (.plain op)) = .ok () n) :
    n.registers.pc = UInt16.ofInt (m.nextAddress (.plain op)) := by
  cases op with
  | clear => exact counter_of_not_mem (i := .plain .clear) (by decide) h
  | ret =>
    obtain ⟨a, s, hpop, hset⟩ := bind_eq_ok_iff.1 h
    obtain ⟨rest, hframes, -⟩ := frames_of_pop hpop
    have htop : m.nextAddress (.plain .ret) = (m.stack.frames.headD 0).toNat := rfl
    rw [htop, show m.stack.frames = a :: rest from hframes]
    cases hset
    rfl

theorem counter_of_executeAddr {op : Op.Addr} {nnn : Int}
    (h : executeAddr op nnn (m.launched (.addr op nnn)) = .ok () n) :
    n.registers.pc = UInt16.ofInt (m.nextAddress (.addr op nnn)) := by
  by_cases hset : .setCounter ∈ (Opcode.addr op).primitives
  · cases op with
    | jump =>
      cases h
      rfl
    | call =>
      obtain ⟨pc, s, hpc, h⟩ := bind_eq_ok_iff.1 h
      obtain ⟨u, t, -, hjump⟩ := bind_eq_ok_iff.1 h
      cases hjump
      rfl
    | jumpV0 =>
      obtain ⟨b, s, hb, hjump⟩ := bind_eq_ok_iff.1 h
      rw [show (0 : Int) = ((0 : Fin 16).val : Int) from rfl, register_fin] at hb
      cases hb
      cases hjump
      unfold nextAddress
      rw [show (0 : Int) = ((0 : Fin 16).val : Int) from rfl, Registers.byte_fin]
      rfl
    | _ => exact absurd hset (by decide)
  · exact counter_of_not_mem (i := .addr op nnn) hset h

theorem counter_of_executeReg {op : Op.Reg} {s : Fin 16}
    (h : executeReg op s.val (m.launched (.reg op s.val)) = .ok () n) :
    n.registers.pc = UInt16.ofInt (m.nextAddress (.reg op s.val)) := by
  by_cases hset : .setCounter ∈ (Opcode.reg op).primitives
  · cases op with
    | skipKey =>
      obtain ⟨v, hv, h⟩ := nibble_of_heldKey h
      have hskips : m.skips (.reg .skipKey s.val) = (v == some (m.registers.v.get s)) := by
        rw [skips, show m.keypad.number? = v from Keypad.number?_of_nibble hv,
          Registers.byte_fin]
      cases v with
      | none => exact counter_of_skipIf (c := false) hskips rfl h
      | some key =>
        simp only [bind_apply, register_fin] at h
        exact counter_of_skipIf hskips rfl h
    | skipNoKey =>
      obtain ⟨v, hv, h⟩ := nibble_of_heldKey h
      have hskips : m.skips (.reg .skipNoKey s.val) = (v != some (m.registers.v.get s)) := by
        rw [skips, show m.keypad.number? = v from Keypad.number?_of_nibble hv,
          Registers.byte_fin]
      cases v with
      | none => exact counter_of_skipIf hskips rfl h
      | some key =>
        simp only [bind_apply, register_fin] at h
        exact counter_of_skipIf hskips rfl h
    | waitKey =>
      obtain ⟨v, hv, h⟩ := nibble_of_heldKey h
      have hheld : m.keypad.held = none ↔ v = none := Keypad.held_eq_none_iff hv
      cases v with
      | none =>
        cases h
        rw [nextAddress, if_pos (hheld.2 rfl), ← Int.add_sub_cancel (m.registers.pc.toNat : Int) 2]
        exact ofInt_add_toNat_ofInt (m.registers.pc.toNat + 2) (-2)
      | some key =>
        simp only [setRegister_fin] at h
        cases h
        rw [nextAddress, if_neg fun hn => nomatch hheld.1 hn]
        rfl
    | _ => exact absurd hset (by decide)
  · exact counter_of_not_mem (i := .reg op s.val) hset h

theorem counter_of_executePair {op : Op.Pair} {s t : Fin 16}
    (h : executePair op s.val t.val (m.launched (.pair op s.val t.val)) = .ok () n) :
    n.registers.pc = UInt16.ofInt (m.nextAddress (.pair op s.val t.val)) := by
  by_cases hset : .setCounter ∈ (Opcode.pair op).primitives
  · cases op with
    | skipEq =>
      simp only [executePair, bind_apply, register_fin] at h
      exact counter_of_skipIf (by rw [skips, Registers.byte_fin, Registers.byte_fin]; rfl) rfl h
    | skipNe =>
      simp only [executePair, bind_apply, register_fin] at h
      exact counter_of_skipIf (by rw [skips, Registers.byte_fin, Registers.byte_fin]; rfl) rfl h
    | _ => exact absurd hset (by decide)
  · exact counter_of_not_mem (i := .pair op s.val t.val) hset h

theorem counter_of_executeByte {op : Op.Byte} {s : Fin 16} {kk : Int}
    (h : executeByte op s.val kk (m.launched (.byte op s.val kk)) = .ok () n) :
    n.registers.pc = UInt16.ofInt (m.nextAddress (.byte op s.val kk)) := by
  by_cases hset : .setCounter ∈ (Opcode.byte op).primitives
  · cases op with
    | skipEq =>
      simp only [executeByte, bind_apply, register_fin] at h
      exact counter_of_skipIf (by rw [skips, Registers.byte_fin]; rfl) rfl h
    | skipNe =>
      simp only [executeByte, bind_apply, register_fin] at h
      exact counter_of_skipIf (by rw [skips, Registers.byte_fin]; rfl) rfl h
    | _ => exact absurd hset (by decide)
  · exact counter_of_not_mem (i := .byte op s.val kk) hset h

theorem counter_of_execute (hi : i.Fits) (h : execute i (m.launched i) = .ok () n) :
    n.registers.pc = UInt16.ofInt (m.nextAddress i) := by
  cases i with
  | plain op => exact counter_of_executePlain h
  | addr op nnn => exact counter_of_executeAddr h
  | reg op x =>
    obtain ⟨s, rfl⟩ := hi.reg
    exact counter_of_executeReg h
  | pair op x y =>
    obtain ⟨⟨s, rfl⟩, t, rfl⟩ := hi.pair
    exact counter_of_executePair h
  | byte op x kk =>
    obtain ⟨s, rfl⟩ := hi.byte
    exact counter_of_executeByte h
  | draw x y n =>
    have hset : .setCounter ∉ Opcode.draw.primitives := by decide
    exact counter_of_not_mem (i := .draw x y n) hset h

theorem counter_of_step (h : step m = .ok i n) :
    n.registers.pc = UInt16.ofInt (m.nextAddress i) := by
  obtain ⟨hf, hx⟩ := step_eq_ok_iff.1 h
  exact counter_of_execute (fits_of_fetched hf) hx

/-! ## The stack -/

/-- What `i` makes of the stack of `m`. -/
inductive Restacked (m : Machine) : Instr → CallStack → Prop where
  | call (nnn : Int) : Restacked m (.addr .call nnn)
      { m.stack with frames := UInt16.ofInt (m.registers.pc.toNat + 2) :: m.stack.frames }
  | ret {a : UInt16} {rest : List UInt16} (h : m.stack.frames = a :: rest) :
      Restacked m (.plain .ret) { m.stack with frames := rest }
  | other {i : Instr} (hcall : i.opcode ≠ .addr .call) (hret : i.opcode ≠ .plain .ret) :
      Restacked m i m.stack

theorem restacked_of_call {nnn : Int}
    (h : execute (.addr .call nnn) (m.launched (.addr .call nnn)) = .ok () n) :
    Restacked m (.addr .call nnn) n.stack := by
  obtain ⟨pc, s, hpc, h⟩ := bind_eq_ok_iff.1 h
  obtain ⟨u, t, hpush, hset⟩ := bind_eq_ok_iff.1 h
  cases hpc
  cases hset
  unfold push CallStack.push at hpush
  by_cases hfull : (m.launched (.addr .call nnn)).stack.capacity ≤
      (m.launched (.addr .call nnn)).stack.depth
  · rw [if_pos hfull] at hpush
    cases hpush
  · rw [if_neg hfull] at hpush
    cases hpush
    have hlink : UInt16.ofInt ((m.launched (.addr .call nnn)).registers.pc.toNat : Int) =
        UInt16.ofInt (m.registers.pc.toNat + 2) := Word.ofInt_toNat _
    rw [hlink]
    exact .call nnn

theorem restacked_of_ret (h : execute (.plain .ret) (m.launched (.plain .ret)) = .ok () n) :
    Restacked m (.plain .ret) n.stack := by
  obtain ⟨a, s, hpop, hset⟩ := bind_eq_ok_iff.1 h
  obtain ⟨rest, hframes, rfl⟩ := frames_of_pop hpop
  cases hset
  exact .ret hframes

theorem restacked_of_step (h : step m = .ok i n) : Restacked m i n.stack := by
  obtain ⟨-, hx⟩ := step_eq_ok_iff.1 h
  by_cases hcall : i.opcode = .addr .call
  · cases i with
    | addr op nnn =>
      cases hcall
      exact restacked_of_call hx
    | _ => cases hcall
  · by_cases hret : i.opcode = .plain .ret
    · cases i with
      | plain op =>
        cases hret
        exact restacked_of_ret hx
      | _ => cases hret
    · have hout : i.opcode ∉ Part.stack.writers := by
        intro hmem
        rcases List.mem_cons.1 hmem with hop | hop
        · exact hcall hop
        · exact hret (List.mem_singleton.1 hop)
      have hkept : n.stack = m.stack := kept_of_execute hout hx
      rw [hkept]
      exact .other hcall hret

theorem frames_of_call {nnn : Int} (h : step m = .ok (.addr .call nnn) n) :
    n.stack.frames = UInt16.ofInt (m.registers.pc.toNat + 2) :: m.stack.frames := by
  have hstack := restacked_of_step h
  generalize n.stack = s at hstack ⊢
  cases hstack with
  | call => rfl
  | other hcall => exact absurd rfl hcall

theorem frames_of_ret (h : step m = .ok (.plain .ret) n) :
    ∃ a, m.stack.frames = a :: n.stack.frames := by
  have hstack := restacked_of_step h
  generalize n.stack = s at hstack ⊢
  cases hstack with
  | ret hframes => exact ⟨_, hframes⟩
  | other _ hret => exact absurd rfl hret

/-! ## What can be fetched -/

theorem has_of_read16 {mem : Memory} {a : Int} {w : Nat} (h : mem.read16 a = .ok w) :
    mem.Has a ∧ mem.Has (a + 1) := by
  unfold Memory.read16 Memory.read8 at h
  by_cases hhigh : mem.Has a
  · by_cases hlow : mem.Has (a + 1)
    · exact ⟨hhigh, hlow⟩
    · rw [dif_pos hhigh, dif_neg hlow] at h
      cases h
  · rw [dif_neg hhigh] at h
    cases h

/-- Both bytes of an instruction are in memory. -/
theorem counter_lt_of_fetched (h : m.fetched = .ok i) :
    m.registers.pc.toNat + 1 < m.memory.size := by
  unfold fetched at h
  cases hr : m.memory.read16 m.registers.pc.toNat with
  | error f =>
    rw [hr] at h
    cases h
  | ok w =>
    have hlast := (has_of_read16 hr).2.2
    omega

/-- So is the cell that its address names. -/
theorem address_lt_of_fetched {op : Op.Addr} {nnn : Int} (h : m.fetched = .ok (.addr op nnn)) :
    0 ≤ nnn ∧ nnn < m.memory.size := by
  refine ⟨(fits_of_fetched h (.addr, nnn) (by simp [Instr.operands])).1, ?_⟩
  unfold fetched at h
  cases hr : m.memory.read16 m.registers.pc.toNat with
  | error f =>
    rw [hr] at h
    cases h
  | ok w =>
    rw [hr] at h
    exact Instr.address_lt_of_decode h rfl

/-- A return leads to the top of the stack, any other instruction to hardly more than the end of
memory. -/
theorem nextAddress_le (hf : m.fetched = .ok i) (bound : Nat) (hsize : m.memory.size + 254 ≤ bound)
    (htop : (m.stack.frames.headD 0).toNat ≤ bound) :
    0 ≤ m.nextAddress i ∧ m.nextAddress i ≤ bound := by
  have hpc := counter_lt_of_fetched hf
  unfold nextAddress
  split
  · omega
  · have hnnn := address_lt_of_fetched hf
    omega
  · have hnnn := address_lt_of_fetched hf
    omega
  · have hnnn := address_lt_of_fetched hf
    have hbyte := (m.registers.byte 0).toNat_lt
    omega
  · split <;> omega
  · split <;> omega

end Machine

end Chip8
