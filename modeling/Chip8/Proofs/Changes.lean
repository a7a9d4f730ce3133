import Chip8.Memory.Change
import Chip8.Proofs.Stores

/-!
# Changes as patches

The changes between two runs of bytes say how to make one of the other. A run that is given the new
bytes of the changes becomes the second run (`patch_changes`), and given their old bytes it goes
back to the first, as the changes in the other direction are the same with each pair swapped
(`changes_comm`). Of two snapshots of one memory only those cells differ that a successful store
between them had a value for (`Memory.exists_targets`).
-/

namespace Chip8

/-! ## Runs of bytes -/

namespace Change

variable {as bs : List UInt8} {base : Int} {c : Change}

/-- Two runs of bytes from address `base` on differ in this way. -/
def Between (as bs : List UInt8) (base : Int) (c : Change) : Prop :=
  ∃ (i : Nat) (ha : i < as.length) (hb : i < bs.length),
    as[i] ≠ bs[i] ∧ c = ⟨base + i, as[i], bs[i]⟩

theorem between_cons {a b : UInt8} : Between (a :: as) (b :: bs) base c ↔
    a ≠ b ∧ c = ⟨base, a, b⟩ ∨ Between as bs (base + 1) c := by
  have hnext (i : Nat) : base + 1 + i = base + (i + 1 : Nat) := by omega
  constructor
  · rintro ⟨i, ha, hb, hne, rfl⟩
    cases i with
    | zero => exact .inl ⟨hne, by simp⟩
    | succ i => exact .inr ⟨i, by simpa using ha, by simpa using hb, hne, by rw [hnext]; rfl⟩
  · rintro (⟨hne, rfl⟩ | ⟨i, ha, hb, hne, rfl⟩)
    · exact ⟨0, Nat.succ_pos _, Nat.succ_pos _, hne, by simp⟩
    · exact ⟨i + 1, by simpa using ha, by simpa using hb, hne, by rw [hnext]; rfl⟩

/-- The changes are all differences. -/
theorem mem_changes_iff : c ∈ changes as bs base ↔ Between as bs base c := by
  fun_induction changes as bs base with
  | case1 as b bs base ih =>
    rw [ih, between_cons]
    exact ⟨.inr, fun h => h.resolve_left fun heq => heq.1 rfl⟩
  | case2 a as b bs base hab ih =>
    rw [List.mem_cons, ih, between_cons]
    exact or_congr_left ⟨fun h => ⟨hab, h⟩, And.right⟩
  | case3 as bs base hempty =>
    refine ⟨fun h => absurd h List.not_mem_nil, ?_⟩
    rintro ⟨i, ha, hb, -⟩
    obtain ⟨a, as, rfl⟩ := List.exists_cons_of_length_pos (Nat.zero_lt_of_lt ha)
    obtain ⟨b, bs, rfl⟩ := List.exists_cons_of_length_pos (Nat.zero_lt_of_lt hb)
    exact (hempty a as b bs rfl rfl).elim

theorem lt_address (h : c ∈ changes as bs (base + 1)) : base < c.address := by
  obtain ⟨i, -, -, -, rfl⟩ := mem_changes_iff.1 h
  show base < base + 1 + i
  omega

/-- No address occurs twice. -/
theorem pairwise_changes (as bs : List UInt8) (base : Int) :
    (changes as bs base).Pairwise fun c d => c.address < d.address := by
  fun_induction changes as bs base with
  | case1 as b bs base ih => exact ih
  | case2 a as b bs base hab ih => exact List.pairwise_cons.2 ⟨fun d => lt_address, ih⟩
  | case3 => exact List.Pairwise.nil

/-! ## Both directions -/

/-- The change in the other direction. -/
def swap (c : Change) : Change :=
  ⟨c.address, c.new, c.old⟩

theorem changes_comm (as bs : List UInt8) (base : Int) :
    changes bs as base = (changes as bs base).map swap := by
  fun_induction changes as bs base with
  | case1 as b bs base ih => rw [changes, if_pos rfl, ih]
  | case2 a as b bs base hab ih => rw [changes, if_neg (Ne.symm hab), ih, List.map_cons, swap]
  | case3 as bs base hempty =>
    rw [changes, List.map_nil]
    exact fun b bs' a as' hbs has => hempty a as' b bs' has hbs

/-! ## Patches -/

/-- The new byte in its place, in a run of bytes from address `base` on. -/
def apply (base : Int) (bytes : List UInt8) (c : Change) : List UInt8 :=
  if base ≤ c.address then bytes.set (c.address - base).toNat c.new else bytes

def patch (base : Int) (cs : List Change) (bytes : List UInt8) : List UInt8 :=
  cs.foldl (apply base) bytes

theorem apply_cons (h : base < c.address) (a : UInt8) (as : List UInt8) :
    apply base (a :: as) c = a :: apply (base + 1) as c := by
  have hindex : (c.address - base).toNat = (c.address - (base + 1)).toNat + 1 := by omega
  unfold apply
  rw [if_pos (Int.le_of_lt h), if_pos (Int.add_one_le_of_lt h), hindex, List.set_cons_succ]

/-- Changes further on leave the first byte alone. -/
theorem patch_cons {cs : List Change} (h : ∀ c ∈ cs, base < c.address) (a : UInt8)
    (as : List UInt8) : patch base cs (a :: as) = a :: patch (base + 1) cs as := by
  induction cs generalizing as with
  | nil => rfl
  | cons c cs ih =>
    obtain ⟨hc, hcs⟩ := List.forall_mem_cons.1 h
    unfold patch
    rw [List.foldl_cons, List.foldl_cons, apply_cons hc]
    exact ih hcs _

/-- The changes make the second run of the first. -/
theorem patch_changes (h : as.length = bs.length) : patch base (changes as bs base) as = bs := by
  fun_induction changes as bs base with
  | case1 as b bs base ih => rw [patch_cons fun d => lt_address, ih (Nat.succ.inj h)]
  | case2 a as b bs base hab ih =>
    have hfirst : apply base (a :: as) ⟨base, a, b⟩ = b :: as := by simp [apply]
    show patch base (changes as bs (base + 1)) (apply base (a :: as) ⟨base, a, b⟩) = b :: bs
    rw [hfirst, patch_cons fun d => lt_address, ih (Nat.succ.inj h)]
  | case3 as bs base hempty =>
    cases as with
    | nil => exact (List.length_eq_zero_iff.1 h.symm).symm
    | cons a as =>
      have hpos : 0 < bs.length := by
        rw [← h]
        exact Nat.succ_pos _
      obtain ⟨b, bs, rfl⟩ := List.exists_cons_of_length_pos hpos
      exact (hempty a as b bs rfl rfl).elim

theorem changes_eq_nil_iff (h : as.length = bs.length) : changes as bs base = [] ↔ as = bs := by
  constructor
  · intro hnil
    have hpatch : patch base (changes as bs base) as = bs := patch_changes h
    rwa [hnil] at hpatch
  · rintro rfl
    exact changes_self as base

end Change

/-! ## Snapshots -/

/-- The store has a value for the address. -/
def Store.Targets (a : Int) : Store → Prop
  | write b _ => a = b
  | load image base => base ≤ a ∧ a < base + image.length

theorem Store.targets_iff {a : Int} {s : Store} : s.Targets a ↔ s.value? a ≠ none := by
  cases s with
  | write b v =>
    show a = b ↔ (if a = b then some v else none) ≠ none
    split <;> simp_all
  | load image base =>
    show base ≤ a ∧ a < base + image.length ↔
      (if base ≤ a then image[(a - base).toNat]?.map fun b => (b.toNat : Int) else none) ≠ none
    by_cases hle : base ≤ a
    · rw [if_pos hle, Ne, Option.map_eq_none_iff, List.getElem?_eq_none_iff]
      omega
    · rw [if_neg hle]
      exact ⟨fun h => absurd h.1 hle, fun h => absurd rfl h⟩

namespace Memory

variable {m : Memory} {ss : List Store} {start : Int} {last? : Option Int} {old : List UInt8}

/-- How many cells a snapshot shows, which depends on the size of memory alone. -/
def shown (size : Nat) (start : Int) (last? : Option Int) : Nat :=
  (last?.getD (size - 1) + 1).toNat - start.toNat

theorem snapshot_of_has (hstart : m.Has start) (hlast : m.Has (last?.getD (m.size - 1))) :
    m.snapshot start last? = .ok (m.cellsFrom start.toNat (shown m.size start last?)) := by
  have hstop : (last?.getD (m.size - 1) + 1).toNat ≤ m.size := by
    obtain ⟨h0, hlt⟩ := hlast
    omega
  unfold snapshot
  rw [if_neg (not_not_intro hstart), if_neg (not_not_intro hlast), toList_extract hstop, shown]

/-- A cell has changed only if a store that succeeded had a value for it. -/
theorem exists_targets {k : Nat} (h : m.cell k ≠ (m.replay ss).cell k) :
    ∃ s ∈ m.succeeded ss, s.Targets k := by
  rw [cell_replay] at h
  cases hlatest : Store.latest? k (m.succeeded ss) with
  | none =>
    rw [hlatest] at h
    exact absurd rfl h
  | some v =>
    obtain ⟨s, hs, hv⟩ := List.exists_of_findSome?_eq_some hlatest
    refine ⟨s, List.mem_reverse.1 hs, Store.targets_iff.2 ?_⟩
    rw [hv]
    nofun

/-- A change between two moments is under a store that succeeded between them. -/
theorem exists_targets_of_mem {n : Nat} {c : Change} (hstart : 0 ≤ start)
    (h : c ∈ Change.changes (m.cellsFrom start.toNat n) ((m.replay ss).cellsFrom start.toNat n)
      start) : ∃ s ∈ m.succeeded ss, s.Targets c.address := by
  obtain ⟨i, hi, hi', hne, rfl⟩ := Change.mem_changes_iff.1 h
  have haddress : start + i = (start.toNat + i : Nat) := by omega
  simp only [cellsFrom, List.getElem_map, List.getElem_range] at hne
  show ∃ s ∈ m.succeeded ss, s.Targets (start + i)
  rw [haddress]
  exact exists_targets hne

/-- The changes between two runs of bytes are a patch. They are the places that both runs have and
at which their bytes differ, with both bytes, and no address occurs twice. In the other direction
they are the same with each pair swapped. For runs of one length, the new bytes make the second run
of the first, the old ones the first of the second, and there are no changes only between equal
runs. Two snapshots can be taken of any valid range, before and after any stores: then every address
that the changes name is one that a successful store between them had a value for, and the changes
make the second snapshot of the first. -/
theorem changes_patch_snapshots :
    (∀ (as bs : List UInt8) (base : Int),
      (∀ c, c ∈ Change.changes as bs base ↔
        ∃ (i : Nat) (ha : i < as.length) (hb : i < bs.length),
          as[i] ≠ bs[i] ∧ c = ⟨base + i, as[i], bs[i]⟩) ∧
      ((Change.changes as bs base).Pairwise fun c d => c.address < d.address) ∧
      Change.changes bs as base = (Change.changes as bs base).map Change.swap ∧
      (as.length = bs.length →
        Change.patch base (Change.changes as bs base) as = bs ∧
        Change.patch base ((Change.changes as bs base).map Change.swap) bs = as ∧
        (Change.changes as bs base = [] ↔ as = bs))) ∧
    ∀ (m : Memory) (ss : List Store) (start : Int) (last? : Option Int),
      m.Has start → m.Has (last?.getD (m.size - 1)) →
      ∃ old new, m.snapshot start last? = .ok old ∧
        (m.replay ss).snapshot start last? = .ok new ∧
        (∀ c ∈ Change.changes old new start, ∃ s ∈ m.succeeded ss, s.Targets c.address) ∧
        Change.patch start (Change.changes old new start) old = new := by
  constructor
  · intro as bs base
    refine ⟨fun c => Change.mem_changes_iff, Change.pairwise_changes as bs base,
      Change.changes_comm as bs base, fun h => ⟨Change.patch_changes h, ?_,
        Change.changes_eq_nil_iff h⟩⟩
    rw [← Change.changes_comm]
    exact Change.patch_changes h.symm
  · intro m ss start last? hstart hlast
    have hsize : (m.replay ss).size = m.size := size_replay m ss
    have hafter : (m.replay ss).snapshot start last? =
        .ok ((m.replay ss).cellsFrom start.toNat (shown m.size start last?)) := by
      rw [← hsize]
      apply snapshot_of_has
      · unfold Has
        rwa [hsize]
      · unfold Has
        rwa [hsize]
    refine ⟨_, _, snapshot_of_has hstart hlast, hafter, fun c => exists_targets_of_mem hstart.1,
      Change.patch_changes ?_⟩
    rw [length_cellsFrom, length_cellsFrom]

/-- Cell 2 is changed and changed back, and one of the stores fails. Runs of different lengths are
compared as far as the shorter one goes. -/
theorem changes_patch_snapshots_restored :
    let ss := [.load [1, 2, 3] 1, .write 2 0, .write 9 7, .write 3 5]
    (zeros 5).Has 1 ∧ (zeros 5).Has 4 ∧ (zeros 5).succeeded ss = [ss[0], ss[1], ss[3]] ∧
      (∃ old new, (zeros 5).snapshot 1 none = .ok old ∧
        ((zeros 5).replay ss).snapshot 1 none = .ok new ∧
        Change.changes old new 1 = [⟨1, 0, 1⟩, ⟨3, 0, 5⟩] ∧
        Change.patch 1 [⟨1, 0, 1⟩, ⟨3, 0, 5⟩] old = new) ∧
      Change.changes [7, 8, 9] [7, 6] (-1) = [⟨0, 8, 6⟩] ∧
      Change.patch (-1) [⟨0, 8, 6⟩] [7, 8] = [7, 6] := by
  intro ss
  refine ⟨by decide, by decide, by decide, ?_, by decide, ?_⟩
  · obtain ⟨old, new, hold, hnew, -, hpatch⟩ :=
      changes_patch_snapshots.2 (zeros 5) ss 1 none (by decide) (by decide)
    have hold' : (zeros 5).snapshot 1 none = .ok [0, 0, 0, 0] := by decide
    have hnew' : ((zeros 5).replay ss).snapshot 1 none = .ok [1, 0, 5, 0] := by decide
    obtain rfl := Except.ok.inj (hold.symm.trans hold')
    obtain rfl := Except.ok.inj (hnew.symm.trans hnew')
    exact ⟨_, _, hold, hnew, by decide, hpatch⟩
  · obtain ⟨-, -, -, hlength⟩ := changes_patch_snapshots.1 [7, 8] [7, 6] (-1)
    exact (hlength rfl).1

end Memory

end Chip8
