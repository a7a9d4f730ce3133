import Chip8.Proofs.Control
import Chip8.Proofs.Debugging
import Chip8.Proofs.Reset

/-!
# What instructions change

`Framed m i n` says that `n` comes from `m` by what `i` is there to do and by nothing else: a part
changes only under one of its writers, memory only in the cells that the instruction stores, and a
byte register only as a target of it. A step is framed (`step_framed`).
-/

namespace Chip8

namespace Instr

/-- How many cells an instruction stores from the index register on. -/
def stored : Instr → Nat
  | reg .storeDecimal _ => 3
  | reg .dump x => (x + 1).toNat
  | _ => 0

theorem exists_of_opcode_reg {i : Instr} {op : Op.Reg} (h : i.opcode = .reg op) :
    ∃ x, i = reg op x := by
  cases i with
  | reg op x =>
    cases h
    exact ⟨x, rfl⟩
  | _ => cases h

end Instr

namespace Registers

variable {r : Registers} {s t : Fin 16} {b : UInt8} {v : Int}

theorem eq_of_get_set_ne (h : (r.set s b).v.get t ≠ r.v.get t) : t = s := by
  have hset := r.getElem_set s t b
  by_contra hne
  rw [if_neg fun heq => hne heq.symm] at hset
  exact h hset

theorem eq_of_get_setFlag_ne (h : (r.setFlag v).v.get t ≠ r.v.get t) : t = 15 :=
  eq_of_get_set_ne h

/-- A result and its flag change two registers at most. -/
theorem eq_or_eq_of_get_ne (h : ((r.set s b).setFlag v).v.get t ≠ r.v.get t) :
    t = s ∨ t = 15 := by
  by_cases hflag : ((r.set s b).setFlag v).v.get t = (r.set s b).v.get t
  · rw [hflag] at h
    exact .inl (eq_of_get_set_ne h)
  · exact .inr (eq_of_get_setFlag_ne hflag)

end Registers

namespace Machine

variable {m n : Machine} {i : Instr}

/-- The registers that `i` is there to change. -/
def Targets (m : Machine) (i : Instr) (s : Fin 16) : Prop :=
  match i with
  | .byte op x _ => op ∈ [.load, .add, .random] ∧ (s.val : Int) = x
  | .pair op x _ =>
    (op ∈ [.copy, .or, .and, .xor, .add, .sub, .subFrom] ∧ (s.val : Int) = x) ∨
      (op ∈ [.add, .sub, .subFrom] ∧ s = 15)
  | .reg .shiftRight x => (s.val : Int) = x ∨ s = 15
  | .reg .shiftLeft x => (s.val : Int) = x ∨ s = 15
  | .reg .getDelay x => (s.val : Int) = x
  | .reg .waitKey x => m.keypad.held ≠ none ∧ (s.val : Int) = x
  | .reg .load x => (s.val : Int) ≤ x
  | .draw _ _ _ => s = 15
  | _ => False

/-- Only what `i` is there to change is different in `n`. -/
structure Framed (m : Machine) (i : Instr) (n : Machine) : Prop where
  parts : ∀ q : Part, ¬ q.Kept m n → i.opcode ∈ q.writers
  cells : ∀ k, n.memory.cell k ≠ m.memory.cell k →
    m.registers.i.toNat ≤ k ∧ k < m.registers.i.toNat + i.stored
  registers : ∀ s : Fin 16, n.registers.v.get s ≠ m.registers.v.get s → m.Targets i s
  counter : (n.registers.pc.toNat : Int) = m.nextAddress i
  build : SameBuild m n
  debugger : n.debugger = { m.debugger with
    trace := if m.tracing then m.trace.push ⟨m.registers, i⟩ else m.trace }

theorem mem_writers_of_not_kept {q : Part} (h : execute i (m.launched i) = .ok () n)
    (hq : ¬ q.Kept m n) : i.opcode ∈ q.writers := by
  by_contra hout
  exact hq (kept_of_execute hout h)

/-! ## Cells -/

theorem bounds_of_cell_place {mem : Memory} {a k : Nat} {bs : List UInt8}
    (hle : a + bs.length ≤ mem.size) (h : (mem.place a bs).cell k ≠ mem.cell k) :
    a ≤ k ∧ k < a + bs.length := by
  rw [mem.cell_place a k bs hle] at h
  by_contra hout
  exact h (if_neg hout)

/-- Only the cells of the image change. -/
theorem bounds_of_writeCells {a k : Nat} {bs : List Int} (h : writeCells a bs m = .ok () n)
    (hk : n.memory.cell k ≠ m.memory.cell k) : a ≤ k ∧ k < a + bs.length := by
  rw [writeCells_eq] at h
  split at h
  · rename_i hroom
    cases h
    have hlen : (bs.map UInt8.ofInt).length = bs.length := List.length_map _
    rcases hroom with rfl | hroom
    · exact absurd rfl hk
    · rw [← hlen] at hroom ⊢
      exact bounds_of_cell_place hroom hk
  · cases h

theorem bounds_of_execute (hi : i.Fits) (h : execute i (m.launched i) = .ok () n) {k : Nat}
    (hk : n.memory.cell k ≠ m.memory.cell k) :
    m.registers.i.toNat ≤ k ∧ k < m.registers.i.toNat + i.stored := by
  have hwriter : i.opcode ∈ Part.memory.writers :=
    mem_writers_of_not_kept h fun (hkept : n.memory = m.memory) => hk (by rw [hkept])
  rcases List.mem_cons.1 hwriter with hop | hop
  · obtain ⟨x, rfl⟩ := Instr.exists_of_opcode_reg hop
    obtain ⟨s, rfl⟩ := hi.reg
    simp only [execute, executeReg, bind_apply, register_fin, index_apply] at h
    exact bounds_of_writeCells h hk
  · obtain ⟨x, rfl⟩ := Instr.exists_of_opcode_reg (List.mem_singleton.1 hop)
    obtain ⟨s, rfl⟩ := hi.reg
    have hcount : ((s.val : Int) + 1).toNat = s.val + 1 := by omega
    simp only [execute, executeReg, bind_apply, index_apply, hcount] at h
    rw [dumpRegisters_eq _ _ _ _ (by omega)] at h
    obtain ⟨hlow, hhigh⟩ := bounds_of_writeCells h hk
    have hlen : (s.val + 1) ⊓ 16 = s.val + 1 := by omega
    refine ⟨hlow, ?_⟩
    rw [List.length_map, List.length_take, List.drop_zero, Vector.length_toList, hlen] at hhigh
    rw [Instr.stored, hcount]
    exact hhigh

/-! ## Registers -/

/-- Operations that write no register by its number leave all but the flag. -/
theorem closedOn_flag : ClosedOn (· ≠ .setRegister)
    fun m n => ∀ t : Fin 16, n.registers.v.get t ≠ m.registers.v.get t → t = 15 where
  refl _ _ h := absurd rfl h
  trans {m n o} h₁ h₂ t ht := by
    by_cases hmid : n.registers.v.get t = m.registers.v.get t
    · rw [← hmid] at ht
      exact h₂ t ht
    · exact h₁ t hmid
  setRegister h := absurd rfl h
  setFlag _ _ _ _ := Registers.eq_of_get_setFlag_ne
  setIndex _ _ _ _ h := absurd rfl h
  setCounter _ _ _ _ h := absurd rfl h
  write _ _ _ _ _ _ _ h := absurd rfl h
  push _ _ _ _ _ _ h := absurd rfl h
  pop _ _ _ _ _ _ h := absurd rfl h
  setDelay _ _ _ _ h := absurd rfl h
  setSound _ _ _ _ h := absurd rfl h
  clear _ _ _ h := absurd rfl h
  draw _ _ _ _ _ _ _ _ _ h := absurd rfl h
  random _ _ _ h := absurd rfl h

section

variable {t : Fin 16}

theorem mem_registers_writers (h : execute i (m.launched i) = .ok () n)
    (ht : n.registers.v.get t ≠ m.registers.v.get t) : i.opcode ∈ Part.registers.writers :=
  mem_writers_of_not_kept h fun (hkept : n.registers.v = m.registers.v) => ht (by rw [hkept])

theorem targets_of_executeReg {op : Op.Reg} {s : Fin 16}
    (h : executeReg op s.val (m.launched (.reg op s.val)) = .ok () n)
    (ht : n.registers.v.get t ≠ m.registers.v.get t) : m.Targets (.reg op s.val) t := by
  have hwriter : .reg op ∈ Part.registers.writers :=
    mem_registers_writers (i := .reg op s.val) h ht
  cases op with
  | shiftRight | shiftLeft =>
    simp only [executeReg, bind_apply, register_fin, setResult_fin] at h
    cases h
    exact (Registers.eq_or_eq_of_get_ne ht).imp_left fun heq => by rw [heq]
  | getDelay =>
    simp only [executeReg, bind_apply, get_apply, setRegister_fin] at h
    cases h
    exact congrArg (fun u : Fin 16 => (u.val : Int)) (Registers.eq_of_get_set_ne ht)
  | waitKey =>
    obtain ⟨v, hv, h⟩ := nibble_of_heldKey h
    cases v with
    | none =>
      cases h
      exact absurd rfl ht
    | some key =>
      simp only [setRegister_fin] at h
      cases h
      have hheld : m.keypad.held ≠ none := fun hnone =>
        Option.some_ne_none key ((Keypad.held_eq_none_iff hv).1 hnone)
      refine ⟨hheld, ?_⟩
      exact congrArg (fun u : Fin 16 => (u.val : Int)) (Registers.eq_of_get_set_ne ht)
  | load =>
    have hcount : ((s.val : Int) + 1).toNat = s.val + 1 := by omega
    simp only [executeReg, bind_apply, index_apply, hcount] at h
    rw [loadRegisters_eq _ _ _ _ (by omega)] at h
    split at h
    · cases h
      by_contra hout
      have hafter : ¬ (0 ≤ t.val ∧ t.val < 0 + (s.val + 1)) := fun hin =>
        hout (Int.ofNat_le.2 (by omega))
      refine ht ?_
      rw [Registers.get_fill, if_neg hafter]
      rfl
    · cases h
  | _ => exact absurd hwriter (by decide)

theorem targets_of_executePair {op : Op.Pair} {s u : Fin 16}
    (h : executePair op s.val u.val (m.launched (.pair op s.val u.val)) = .ok () n)
    (ht : n.registers.v.get t ≠ m.registers.v.get t) : m.Targets (.pair op s.val u.val) t := by
  have hwriter : .pair op ∈ Part.registers.writers :=
    mem_registers_writers (i := .pair op s.val u.val) h ht
  cases op with
  | skipEq | skipNe => exact absurd hwriter (by decide)
  | copy | or | and | xor =>
    simp only [executePair, bind_apply, register_fin, setRegister_fin] at h
    cases h
    exact .inl ⟨by decide, by rw [Registers.eq_of_get_set_ne ht]⟩
  | add | sub | subFrom =>
    simp only [executePair, bind_apply, register_fin, setResult_fin] at h
    cases h
    rcases Registers.eq_or_eq_of_get_ne ht with heq | heq
    · exact .inl ⟨by decide, by rw [heq]⟩
    · exact .inr ⟨by decide, heq⟩

theorem targets_of_executeByte {op : Op.Byte} {s : Fin 16} {kk : Int}
    (h : executeByte op s.val kk (m.launched (.byte op s.val kk)) = .ok () n)
    (ht : n.registers.v.get t ≠ m.registers.v.get t) : m.Targets (.byte op s.val kk) t := by
  have hwriter : .byte op ∈ Part.registers.writers :=
    mem_registers_writers (i := .byte op s.val kk) h ht
  cases op with
  | skipEq | skipNe => exact absurd hwriter (by decide)
  | load | add | random =>
    simp only [executeByte, bind_apply, register_fin, setRegister_fin, randomByte_apply] at h
    cases h
    exact ⟨by decide, by rw [Registers.eq_of_get_set_ne ht]⟩

theorem targets_of_execute (hi : i.Fits) (h : execute i (m.launched i) = .ok () n)
    (ht : n.registers.v.get t ≠ m.registers.v.get t) : m.Targets i t := by
  have hwriter := mem_registers_writers h ht
  cases i with
  | plain op => cases op <;> exact absurd hwriter (by simp [Instr.opcode, Part.writers])
  | addr op nnn => cases op <;> exact absurd hwriter (by simp [Instr.opcode, Part.writers])
  | reg op x =>
    obtain ⟨s, rfl⟩ := hi.reg
    exact targets_of_executeReg h ht
  | pair op x y =>
    obtain ⟨⟨s, rfl⟩, u, rfl⟩ := hi.pair
    exact targets_of_executePair h ht
  | byte op x kk =>
    obtain ⟨s, rfl⟩ := hi.byte
    exact targets_of_executeByte h ht
  | draw x y r =>
    have hallowed : ∀ p ∈ Opcode.draw.primitives, p ≠ .setRegister := by decide
    have hflag := closedOn_flag.execute (i := .draw x y r) hallowed (m.launched (.draw x y r)) t
    rw [after_of_ok h] at hflag
    exact hflag ht

end

/-! ## The counter -/

/-- Where an instruction leads is a word, whatever is on the stack. -/
theorem nextAddress_isWord (hf : m.fetched = .ok i)
    (hsize : (m.memory.size : Int) ≤ Config.maxMemory) :
    0 ≤ m.nextAddress i ∧ m.nextAddress i ≤ 0xFFFF := by
  unfold Config.maxMemory at hsize
  have htop := (m.stack.frames.headD 0).toNat_lt
  exact nextAddress_le hf 0xFFFF (by omega) (by omega)

/-- Each instruction changes only what it is there to change. Whatever a step of a reachable machine
does, the machine that it leaves is framed: parts that its instruction does not write are as before,
cells and registers outside its range are as before, and the counter holds the address at which the
instruction leads on. What it was built from and what the debugger keeps are as before, too, except
that the trace, if it is on, has one entry more. -/
theorem step_framed (hm : m.Reachable) (h : step m = .ok i n) : Framed m i n := by
  obtain ⟨hf, hx⟩ := step_eq_ok_iff.1 h
  have hfits := fits_of_fetched hf
  refine ⟨fun q hq => mem_writers_of_not_kept hx hq, fun k hk => bounds_of_execute hfits hx hk,
    fun s hs => targets_of_execute hfits hx hs, ?_, ?_, ?_⟩
  · obtain ⟨h0, hle⟩ := nextAddress_isWord hf hm.memory_le
    rw [counter_of_step h, Word.toNat_ofInt]
    omega
  · have hbuild := commandClosed_sameBuild.step m
    rwa [after_of_ok h] at hbuild
  · have hdebug := (Detached.execute i).debugger_after (m.launched i)
    rwa [after_of_ok hx] at hdebug

/-- A store at the address of the store itself. -/
def overwriting : List UInt8 :=
  [0xA0, 0x56, 0xF1, 0x55]

/-- The store is overwritten; the cell behind the two that it fills is not. -/
theorem step_framed_overwriting :
    ∃ m n, m.Reachable ∧ step m = .ok (.reg .dump 1) n ∧ Framed m (.reg .dump 1) n ∧
      n.memory ≠ m.memory ∧ n.memory.cell 88 = m.memory.cell 88 ∧
      n.registers.pc.toNat = 88 := by
  obtain ⟨m, hm, hcheck⟩ := exists_reachable small [.load overwriting none, .step]
    (fun m => decide (m.replies [.step] = [some (.ran (.reg .dump 1))] ∧
      m.registers.i.toNat = 86 ∧ m.registers.pc.toNat = 86 ∧
      m.memory.cell 86 = 0xF1 ∧ (after step m).memory.cell 86 = 0))
    (by decide) (by decide +kernel)
  obtain ⟨hran, hindex, hpc, hbefore, hafter⟩ := of_decide_eq_true hcheck
  obtain ⟨n, hperform, -⟩ := perform_of_replies hran
  obtain ⟨i, heq, hstep⟩ := perform_step_eq_ok_iff.1 hperform
  cases heq
  rw [after_of_ok hstep] at hafter
  have hframed := step_framed hm hstep
  refine ⟨m, n, hm, hstep, hframed, fun heq => ?_, ?_, ?_⟩
  · rw [heq, hbefore] at hafter
    cases hafter
  · by_contra hne
    have hhigh := (hframed.cells 88 hne).2
    rw [hindex] at hhigh
    exact absurd hhigh (by decide)
  · have hcounter := hframed.counter
    have hnext : m.nextAddress (.reg .dump 1) = m.registers.pc.toNat + 2 := rfl
    rw [hnext, hpc] at hcounter
    exact Int.ofNat_inj.1 hcounter

end Machine

end Chip8
