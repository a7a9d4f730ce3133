import Chip8.Memory

/-!
# Memory cell by cell

`cell k` is the byte at address `k`, and zero outside. Reading at a natural address is reading
its cell, and the operations that write are described by what they do to each cell. An image that is
in range can be put into its cells one after the other (`place`), which is what loading comes to
(`load_eq`).
-/

namespace Chip8.Memory

def cell (m : Memory) (k : Nat) : UInt8 :=
  m.cells.getD k 0

theorem has_natCast {m : Memory} {k : Nat} : m.Has k ↔ k < m.size := by
  simp [Has]

theorem read8_natCast (m : Memory) (k : Nat) :
    m.read8 k = if k < m.size then .ok (m.cell k) else .error (m.outside k) := by
  unfold read8
  by_cases h : k < m.size
  · rw [dif_pos (has_natCast.2 h), if_pos h]
    have hk : k < m.cells.size := h
    simp [cell, hk]
  · rw [dif_neg (fun hc => h (has_natCast.1 hc)), if_neg h]

theorem write8_natCast (m : Memory) (k : Nat) (v : Int) :
    m.write8 k v = if k < m.size then .ok (m.set k (UInt8.ofInt v)) else .error (m.outside k) := by
  simp only [write8, has_natCast, Int.toNat_natCast]

/-- A memory is its cells. -/
theorem ext_cell {m n : Memory} (hs : m.size = n.size) (h : ∀ k < m.size, m.cell k = n.cell k) :
    m = n := by
  have hcells : m.cells = n.cells := by
    refine Array.ext hs fun k hm hn => ?_
    have hk := h k hm
    unfold cell at hk
    rwa [Array.getD_eq_getD_getElem?, Array.getD_eq_getD_getElem?, Array.getElem?_eq_getElem hm,
      Array.getElem?_eq_getElem hn] at hk
  cases m
  cases n
  exact congrArg mk hcells

/-- The bytes of `n` cells. -/
def cellsFrom (m : Memory) (start n : Nat) : List UInt8 :=
  (List.range n).map fun k => m.cell (start + k)

@[simp] theorem length_cellsFrom (m : Memory) (start n : Nat) :
    (m.cellsFrom start n).length = n := by
  rw [cellsFrom, List.length_map, List.length_range]

theorem cellsFrom_add (m : Memory) (start j k : Nat) :
    m.cellsFrom start (j + k) = m.cellsFrom start j ++ m.cellsFrom (start + j) k := by
  unfold cellsFrom
  rw [List.range_add, List.map_append, List.map_map]
  simp only [Function.comp_def, Nat.add_assoc]

theorem cellsFrom_eq_iff {m n : Memory} {start k : Nat} :
    m.cellsFrom start k = n.cellsFrom start k ↔
      ∀ j < k, m.cell (start + j) = n.cell (start + j) := by
  unfold cellsFrom
  rw [List.map_inj_left]
  simp only [List.mem_range]

/-- Cells inside memory can all be read. -/
theorem map_ok_cellsFrom {m : Memory} {start : Int} {n : Nat} (h0 : 0 ≤ start)
    (h : start + n ≤ m.size) : (m.cellsFrom start.toNat n).map .ok =
      (List.range n).map fun (k : Nat) => m.read8 (start + k) := by
  unfold cellsFrom
  rw [List.map_map]
  refine List.map_congr_left fun k hk => ?_
  have hlt := List.mem_range.1 hk
  have haddress : start + (k : Int) = (start.toNat + k : Nat) := by omega
  rw [haddress, read8_natCast, if_pos (by omega)]
  rfl

theorem toList_extract {m : Memory} {start stop : Nat} (h : stop ≤ m.size) :
    (m.cells.extract start stop).toList = m.cellsFrom start (stop - start) := by
  have hsize : m.size = m.cells.size := rfl
  apply List.ext_getElem
  · rw [length_cellsFrom, Array.length_toList, Array.size_extract]
    omega
  · intro k hk _
    rw [Array.length_toList, Array.size_extract] at hk
    have hin : start + k < m.cells.size := by omega
    simp [cellsFrom, cell, hin]

theorem cell_set (m : Memory) (k j : Nat) (b : UInt8) :
    (m.set k b).cell j = if j = k ∧ k < m.size then b else m.cell j := by
  have hs : (m.set k b).cells = m.cells.setIfInBounds k b := rfl
  simp only [cell, Array.getD_eq_getD_getElem?, hs, Array.getElem?_setIfInBounds, size]
  by_cases hj : j = k
  · subst hj
    by_cases hk : j < m.cells.size <;> simp [hk]
  · simp [hj, Ne.symm hj]

/-! ## Images -/

/-- Bytes into consecutive cells. -/
def place (m : Memory) (k : Nat) : List UInt8 → Memory
  | [] => m
  | b :: bs => (m.set k b).place (k + 1) bs

@[simp] theorem size_place (m : Memory) (k : Nat) (bs : List UInt8) :
    (m.place k bs).size = m.size := by
  induction bs generalizing m k with
  | nil => rfl
  | cons b bs ih => simp [place, ih]

/-- Cells before the image keep their bytes, those under it take them from it. -/
theorem cell_place (m : Memory) (k j : Nat) (bs : List UInt8) (h : k + bs.length ≤ m.size) :
    (m.place k bs).cell j =
      if k ≤ j ∧ j < k + bs.length then bs.getD (j - k) 0 else m.cell j := by
  induction bs generalizing m k with
  | nil =>
    have hj : ¬ (k ≤ j ∧ j < k + 0) := by omega
    simp only [place, List.length_nil, if_neg hj]
  | cons b bs ih =>
    simp only [List.length_cons] at h ⊢
    rw [place, ih (m.set k b) (k + 1) (by rw [size_set]; omega), cell_set]
    by_cases hjk : j = k
    · subst hjk
      rw [if_neg (by omega), if_pos ⟨rfl, by omega⟩, if_pos (by omega)]
      simp
    · by_cases hin : k + 1 ≤ j ∧ j < k + 1 + bs.length
      · rw [if_pos hin, if_pos (by omega), show j - k = (j - (k + 1)) + 1 by omega,
          List.getD_cons_succ]
      · rw [if_neg hin, if_neg (by omega), if_neg (by omega)]

theorem cell_eq_getElem? (m : Memory) (k : Nat) : m.cell k = m.cells.toList[k]?.getD 0 := by
  rw [cell, Array.getD_eq_getD_getElem?, Array.getElem?_toList]

section

variable {m : Memory} {data : List UInt8} {base : Int}

/-- A slice in range is exchanged cell by cell. -/
theorem cell_splice (h0 : 0 ≤ base) (h : base + data.length ≤ m.size) (j : Nat) :
    (m.splice base (base + data.length) data).cell j =
      if base.toNat ≤ j ∧ j < base.toNat + data.length then data.getD (j - base.toNat) 0
      else m.cell j := by
  have hbefore : (m.cells.toList.take base.toNat).length = base.toNat := by
    have hsize : m.size = m.cells.toList.length := rfl
    rw [List.length_take]
    omega
  rw [cell_eq_getElem?, toList_splice h0 h, List.append_assoc]
  by_cases hj : j < base.toNat
  · rw [List.getElem?_append_left (by omega), List.getElem?_take_of_lt hj, if_neg (by omega),
      cell_eq_getElem?]
  · rw [List.getElem?_append_right (by omega), hbefore]
    by_cases hin : j < base.toNat + data.length
    · rw [List.getElem?_append_left (by omega), if_pos ⟨by omega, hin⟩, List.getD_eq_getElem?_getD]
    · rw [List.getElem?_append_right (by omega), List.getElem?_drop, if_neg (by omega),
        cell_eq_getElem?]
      congr 2
      omega

theorem splice_eq_place (h0 : 0 ≤ base) (h : base + data.length ≤ m.size) :
    m.splice base (base + data.length) data = m.place base.toNat data := by
  refine ext_cell (by rw [size_splice h0 h, size_place]) fun j _ => ?_
  rw [cell_splice h0 h, cell_place _ _ _ _ (by omega)]

/-- An image is refused at one of its ends, or put into its cells. -/
theorem load_eq (m : Memory) (data : List UInt8) (base : Int) :
    m.load data base =
      if data = [] then .ok m
      else if ¬ m.Has base then .error (m.outside base)
      else if ¬ m.Has (base + data.length - 1) then .error (m.outside (base + data.length - 1))
      else .ok (m.place base.toNat data) := by
  unfold load
  by_cases hnil : data = []
  · subst hnil
    rw [if_pos rfl, if_neg fun hc => hc.1 rfl, if_neg fun hc => hc.1 rfl, List.length_nil,
      Int.natCast_zero, Int.add_zero, splice_nil]
  · rw [if_neg hnil]
    by_cases hfirst : m.Has base
    · rw [if_neg fun hc => hc.2 hfirst, if_neg (not_not_intro hfirst)]
      by_cases hlast : m.Has (base + data.length - 1)
      · have hend := hlast.2
        rw [if_neg fun hc => hc.2 hlast, if_neg (not_not_intro hlast),
          splice_eq_place hfirst.1 (by omega)]
      · rw [if_pos ⟨hnil, hlast⟩, if_pos hlast]
    · rw [if_pos ⟨hnil, hfirst⟩, if_pos hfirst]

theorem load_nil (m : Memory) (base : Int) : m.load [] base = .ok m := by
  rw [load_eq, if_pos rfl]

/-- An image in range is loaded. -/
theorem load_of_room (h0 : 0 ≤ base) (h : base + data.length ≤ m.size) :
    m.load data base = .ok (m.place base.toNat data) := by
  by_cases hnil : data = []
  · rw [hnil, load_nil]
    rfl
  · have hpos := List.length_pos_iff.2 hnil
    have hfirst : m.Has base := ⟨h0, by omega⟩
    have hlast : m.Has (base + data.length - 1) := ⟨by omega, by omega⟩
    rw [load_eq, if_neg hnil, if_neg (not_not_intro hfirst), if_neg (not_not_intro hlast)]

end

end Chip8.Memory
