import Chip8.Instr.Word
import Chip8.Registers

/-!
# Operands of decoded instructions

An instruction `Fits` if each operand fits its field. Whatever a word decodes to fits, so that
its registers are numbered from 0 to 15; `Fits` of each group of instructions says so in terms
of `Fin 16`.
-/

namespace Chip8.Instr

/-- Every operand fits its field. -/
def Fits (i : Instr) : Prop :=
  ∀ p ∈ i.operands, p.1.Fits p.2

theorem exists_fin_of_fits {f : Field} {v : Int} (hb : f.bits = 4) (h : f.Fits v) :
    ∃ s : Fin 16, v = s.val := by
  obtain ⟨h0, h1⟩ := h
  rw [hb] at h1
  have h16 : v < 16 := h1
  exact ⟨⟨v.toNat, by omega⟩, by simp; omega⟩

theorem Fits.reg {op : Op.Reg} {x : Int} (h : (reg op x).Fits) : ∃ s : Fin 16, x = s.val :=
  exists_fin_of_fits rfl (h (.x, x) (by simp [operands]))

theorem Fits.pair {op : Op.Pair} {x y : Int} (h : (pair op x y).Fits) :
    (∃ s : Fin 16, x = s.val) ∧ ∃ t : Fin 16, y = t.val :=
  ⟨exists_fin_of_fits rfl (h (.x, x) (by simp [operands])),
    exists_fin_of_fits rfl (h (.y, y) (by simp [operands]))⟩

theorem Fits.byte {op : Op.Byte} {x kk : Int} (h : (byte op x kk).Fits) :
    ∃ s : Fin 16, x = s.val :=
  exists_fin_of_fits rfl (h (.x, x) (by simp [operands]))

theorem Fits.draw {x y n : Int} (h : (draw x y n).Fits) :
    (∃ s : Fin 16, x = s.val) ∧ (∃ t : Fin 16, y = t.val) ∧ ∃ r : Fin 16, n = r.val :=
  ⟨exists_fin_of_fits rfl (h (.x, x) (by simp [operands])),
    exists_fin_of_fits rfl (h (.y, y) (by simp [operands])),
    exists_fin_of_fits rfl (h (.n, n) (by simp [operands]))⟩

theorem fits_read (w : Nat) (o : Opcode) : (o.read w).Fits :=
  fun _ hp => Opcode.fits_of_mem_operands_read hp

theorem fits_of_ofWord? {w : Nat} {i : Instr} (h : ofWord? w = some i) : i.Fits := by
  obtain ⟨o, _, rfl⟩ := Option.map_eq_some_iff.1 h
  exact fits_read w o

/-! ## Decoding -/

theorem fits_of_decode {w limit : Int} {i : Instr} (h : decode w limit = .ok i) : i.Fits := by
  unfold decode at h
  split at h
  · split at h
    · cases h
    · rename_i j hj
      have hf := fits_of_ofWord? hj
      split at h
      · cases h; exact hf
      · split at h
        · cases h; exact hf
        · cases h
  · cases h

/-- An address that is decoded lies below the limit. -/
theorem address_lt_of_decode {w limit a : Int} {i : Instr} (h : decode w limit = .ok i)
    (ha : i.address? = some a) : a < limit := by
  unfold decode at h
  split at h
  · split at h
    · cases h
    · split at h
      · rename_i hnone
        cases h
        rw [ha] at hnone
        cases hnone
      · rename_i b hb
        split at h
        · rename_i hlt
          cases h
          rw [ha] at hb
          cases hb
          exact hlt
        · cases h
  · cases h

/-- A word of sixteen bits is refused with a fault only. -/
theorem exists_fault_of_decode {w limit : Int} {e : Failure} (hw : 0 ≤ w ∧ w ≤ 0xFFFF)
    (h : decode w limit = .error e) : ∃ f, e = .fault f := by
  unfold decode at h
  rw [if_pos hw] at h
  split at h
  · cases h; exact ⟨_, rfl⟩
  · split at h
    · cases h
    · split at h
      · cases h
      · cases h; exact ⟨_, rfl⟩

theorem decodeBytes_uInt8 (high low : UInt8) (limit : Int) :
    decodeBytes high.toNat low.toNat limit = decode (256 * high.toNat + low.toNat) limit := by
  have hh := high.toNat_lt
  have hl := low.toNat_lt
  unfold decodeBytes
  exact if_pos ⟨by omega, by omega⟩

end Chip8.Instr
