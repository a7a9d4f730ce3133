import Chip8.Proofs.Keys
import Chip8.Proofs.Reset

/-!
# Skips in pairs

Skips come in pairs. The two of a pair look at the same condition, one skips the next instruction if
it holds and the other if it does not, and neither does anything else (`execute_skips`). Only the
pair that asks for a key can fail, and its two instructions fail together.
-/

namespace Chip8

/-- Two skips with opposite conditions. -/
inductive SkipPair where
  | key (x : Fin 16)
  | byte (x : Fin 16) (kk : Int)
  | register (x y : Fin 16)
  deriving DecidableEq, Repr

namespace SkipPair

/-- The instruction that skips if the condition holds. -/
def ifSo : SkipPair → Instr
  | key x => .reg .skipKey x.val
  | byte x kk => .byte .skipEq x.val kk
  | register x y => .pair .skipEq x.val y.val

/-- The instruction that skips if it does not. -/
def ifNot : SkipPair → Instr
  | key x => .reg .skipNoKey x.val
  | byte x kk => .byte .skipNe x.val kk
  | register x y => .pair .skipNe x.val y.val

/-- The condition. A register is compared as a whole, also with the number of a key. -/
def Holds (p : SkipPair) (m : Machine) : Prop :=
  match p with
  | key x => ∃ k, m.keypad.held = some k ∧ k.Names (m.registers.v.get x)
  | byte x kk => (m.registers.v.get x).toNat = kk
  | register x y => m.registers.v.get x = m.registers.v.get y

/-- The condition can be told: a pair that asks for the key finds one of the pad, or none. -/
def Telling (p : SkipPair) (m : Machine) : Prop :=
  match p with
  | key _ => m.keypad.Readable
  | _ => True

theorem holds_key_iff {m : Machine} {x : Fin 16} {k : Key} {v : UInt8}
    (hk : m.keypad.held = some k) (hv : k.Names v) :
    (key x).Holds m ↔ m.registers.v.get x = v := by
  constructor
  · rintro ⟨k', hk', hx⟩
    obtain rfl : k = k' := Option.some.inj (hk.symm.trans hk')
    exact hx.unique hv
  · rintro rfl
    exact ⟨k, hk, hv⟩

end SkipPair

namespace Machine

/-- The machine with its counter on the next instruction but one, if `c`, and else as it is. -/
def skipping (m : Machine) (c : Bool) : Machine :=
  if c then { m with registers := { m.registers with pc := m.registers.pc + 2 } } else m

theorem skipIf_eq (c : Bool) (m : Machine) : skipIf c m = .ok () (m.skipping c) := by
  have hpc : UInt16.ofInt (m.registers.pc.toNat + 2) = m.registers.pc + 2 :=
    Word.ofInt_toNat_add m.registers.pc 2
  rw [skipIf_apply]
  cases c with
  | false => rfl
  | true =>
    show EStateM.Result.ok () { m with registers :=
      { m.registers with pc := UInt16.ofInt (m.registers.pc.toNat + 2) } } = _
    rw [hpc]
    rfl

theorem execute_skips {m : Machine} {p : SkipPair} (hp : p.Telling m) :
    ∃ c : Bool, (c = true ↔ p.Holds m) ∧ execute p.ifSo m = .ok () (m.skipping c) ∧
      execute p.ifNot m = .ok () (m.skipping !c) := by
  cases p with
  | key x =>
    rcases hp.cases with hnone | ⟨k, v, hk, hv⟩
    · refine ⟨false, ?_, ?_, ?_⟩
      · simp [SkipPair.Holds, hnone]
      · simp only [SkipPair.ifSo, execute, executeReg, bind_apply,
          heldKey_of_nibble (Keypad.nibble_of_none hnone)]
        rfl
      · simp only [SkipPair.ifNot, execute, executeReg, bind_apply,
          heldKey_of_nibble (Keypad.nibble_of_none hnone), skipIf_eq]
        rfl
    · refine ⟨v == m.registers.v.get x, ?_, ?_, ?_⟩
      · rw [beq_iff_eq, SkipPair.holds_key_iff hk hv, eq_comm]
      · simp only [SkipPair.ifSo, execute, executeReg, bind_apply,
          heldKey_of_nibble (Keypad.nibble_of_names hk hv), register_fin, skipIf_eq]
      · simp only [SkipPair.ifNot, execute, executeReg, bind_apply,
          heldKey_of_nibble (Keypad.nibble_of_names hk hv), register_fin, skipIf_eq]
        rfl
  | byte x kk =>
    refine ⟨((m.registers.v.get x).toNat : Int) == kk, beq_iff_eq, ?_, ?_⟩
    · simp only [SkipPair.ifSo, execute, executeByte, bind_apply, register_fin, skipIf_eq]
    · simp only [SkipPair.ifNot, execute, executeByte, bind_apply, register_fin, skipIf_eq]
      rfl
  | register x y =>
    refine ⟨m.registers.v.get x == m.registers.v.get y, beq_iff_eq, ?_, ?_⟩
    · simp only [SkipPair.ifSo, execute, executePair, bind_apply, register_fin, skipIf_eq]
    · simp only [SkipPair.ifNot, execute, executePair, bind_apply, register_fin, skipIf_eq]
      rfl

/-- Skips are complementary. Of two skips with opposite conditions, executed on the same machine,
one adds 2 to the counter, as a word, and the other leaves it alone, as the condition says, and
neither changes anything else. The condition of a pair that asks for the key cannot be told if
something is held that is not a single character of the pad. Then both fail, and so does the
instruction that waits for a key; each names what is held and changes nothing, and they fail in no
other case. The number of a key of the pad is compared with the whole register. -/
theorem skips_complementary (m : Machine) :
    (∀ p : SkipPair, p.Telling m → ∃ c : Bool, (c = true ↔ p.Holds m) ∧
      execute p.ifSo m = .ok () (m.skipping c) ∧ execute p.ifNot m = .ok () (m.skipping !c)) ∧
    (∀ op ∈ Op.Reg.asking, ∀ (x : Fin 16) (e : Failure) (m' : Machine),
      execute (.reg op x.val) m = .error e m' ↔
        ∃ k, m.keypad.held = some k ∧ ¬ k.OnPad ∧ e = .fault (.invalidKey k) ∧ m' = m) ∧
    ∀ (k : Key) (v : UInt8), m.keypad.held = some k → k.Names v →
      ∀ x, (SkipPair.key x).Holds m ↔ m.registers.v.get x = v :=
  ⟨fun _ hp => execute_skips hp, fun _ hop _ _ _ => execute_asking_eq_error_iff hop,
    fun _ _ hk hv _ => SkipPair.holds_key_iff hk hv⟩

/-- The number of the key is the low digit of the register, which is not the whole of it. Two digits
in a row are no key. -/
theorem skips_complementary_wholeByte :
    (∃ m : Machine, m.Reachable ∧ m.keypad.held = some (.text "B") ∧
      m.registers.v.get 5 = 0x1B ∧ m.registers.pc = 0xFFFF ∧
      execute (.reg .skipKey 5) m = .ok () m ∧
      execute (.reg .skipNoKey 5) m = .ok () (m.skipping true) ∧
      (m.skipping true).registers.pc = 1) ∧
    ∃ m : Machine, m.Reachable ∧ m.keypad.held = some (.text "12") ∧
      ∀ op ∈ Op.Reg.asking,
        execute (.reg op 5) m = .error (.fault (.invalidKey (.text "12"))) m := by
  constructor
  · obtain ⟨m, hm, hcheck⟩ := exists_reachable small
      [.press (some (.text "B")), .setRegister 5 0x1B, .setCounter 0xFFFF]
      (fun m => decide (m.keypad.held = some (.text "B") ∧ m.registers.v.get 5 = 0x1B ∧
        m.registers.pc = 0xFFFF))
      (by decide) (by decide +kernel)
    obtain ⟨hk, hx, hpc⟩ := of_decide_eq_true hcheck
    obtain ⟨hpair, -, hnumber⟩ := skips_complementary m
    have hnames : (Key.text "B").Names 0xB := ⟨'B', rfl, by decide⟩
    have hpad : (SkipPair.key 5).Telling m := by
      intro k hheld
      obtain rfl : Key.text "B" = k := Option.some.inj (hk.symm.trans hheld)
      exact ⟨'B', by decide, rfl⟩
    obtain ⟨c, hc, hso, hnot⟩ := hpair (.key 5) hpad
    have hfalse : c = false := by
      rw [← Bool.not_eq_true, hc, hnumber _ _ hk hnames, hx]
      decide
    subst hfalse
    refine ⟨m, hm, hk, hx, hpc, hso, hnot, ?_⟩
    show m.registers.pc + 2 = 1
    rw [hpc]
    rfl
  · obtain ⟨m, hm, hcheck⟩ := exists_reachable small [.press (some (.text "12"))]
      (fun m => decide (m.keypad.held = some (.text "12"))) (by decide) (by decide +kernel)
    have hk := of_decide_eq_true hcheck
    refine ⟨m, hm, hk, fun op hop => ?_⟩
    have hpad : ¬ (Key.text "12").OnPad := by
      rintro ⟨c, -, hc⟩
      have hlength := congrArg String.length (Key.text.inj hc)
      rw [String.length_singleton] at hlength
      exact absurd hlength (by decide)
    exact ((skips_complementary m).2.1 op hop 5 _ m).2 ⟨_, hk, hpad, rfl, rfl⟩

end Machine

end Chip8
