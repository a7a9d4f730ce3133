import Mathlib.Data.List.Induction
import Chip8.Proofs.Bytes
import Chip8.Proofs.Session

/-!
# Memory and its history

A `Store` is a call that may change memory, `Store.Fits` says when it succeeds, and `replay` goes
through a list of them, on past those that fail. What memory then holds can be told from the list
alone: at each address it is the value of the latest successful store that has one for this address
(`cell_replay`).
-/

namespace Chip8

/-- A value for one address, or an image for consecutive ones. -/
inductive Store where
  | write (address value : Int)
  | load (image : List UInt8) (base : Int)
  deriving DecidableEq, Repr

namespace Store

/-- All addresses are inside a memory of some size. An empty image has none. -/
def Fits (size : Nat) : Store → Prop
  | write a _ => 0 ≤ a ∧ a < size
  | load image base => image = [] ∨ (0 ≤ base ∧ base + image.length ≤ size)

instance (size : Nat) : DecidablePred (Fits size) := fun s => by
  cases s with
  | write a v => exact inferInstanceAs (Decidable (_ ∧ _))
  | load image base => exact inferInstanceAs (Decidable (_ ∨ _))

/-- The address for which a store that does not fit is refused. -/
def refused (size : Nat) : Store → Int
  | write a _ => a
  | load image base => if 0 ≤ base ∧ base < size then base + image.length - 1 else base

/-- The value that a store has for an address. -/
def value? (a : Int) : Store → Option Int
  | write b v => if a = b then some v else none
  | load image base =>
    if base ≤ a then image[(a - base).toNat]?.map fun b => (b.toNat : Int) else none

/-- The value for an address that came last. -/
def latest? (a : Int) (ss : List Store) : Option Int :=
  ss.reverse.findSome? (value? a)

theorem latest?_concat (a : Int) (ss : List Store) (s : Store) :
    latest? a (ss ++ [s]) = (s.value? a).or (latest? a ss) := by
  unfold latest?
  rw [List.reverse_append, List.findSome?_append]
  simp

/-- The same call on a machine. -/
def command : Store → Command
  | write a v => .poke a v
  | load image base => .load image (some base)

end Store

namespace Memory

variable {m m' : Memory} {s : Store}

/-! ## One store -/

def store (m : Memory) : Store → Except Fault Memory
  | .write a v => m.write8 a v
  | .load image base => m.load image base

/-- The memory after a store, which is as before if it fails. -/
def stored (m : Memory) (s : Store) : Memory :=
  match m.store s with
  | .ok m' => m'
  | .error _ => m

/-- What a store that fits makes of memory. -/
def placed (m : Memory) : Store → Memory
  | .write a v => m.set a.toNat (UInt8.ofInt v)
  | .load image base => m.place base.toNat image

theorem load_of_fits {image : List UInt8} {base : Int}
    (h : (Store.load image base).Fits m.size) :
    m.load image base = .ok (m.place base.toNat image) := by
  rcases h with rfl | ⟨h0, hroom⟩
  · exact load_nil m base
  · exact load_of_room h0 hroom

/-- One of the two ends of an image that does not fit is outside. -/
theorem load_of_not_fits {image : List UInt8} {base : Int}
    (h : ¬ (Store.load image base).Fits m.size) :
    m.load image base = .error (m.outside ((Store.load image base).refused m.size)) := by
  obtain ⟨hnil, hout⟩ := not_or.1 h
  have hrefused : (Store.load image base).refused m.size =
      if m.Has base then base + image.length - 1 else base := rfl
  rw [load_eq, if_neg hnil, hrefused]
  by_cases hfirst : m.Has base
  · have hlast : ¬ m.Has (base + image.length - 1) := by
      rintro ⟨-, hlt⟩
      exact hout ⟨hfirst.1, by omega⟩
    rw [if_neg (not_not_intro hfirst), if_pos hlast, if_pos hfirst]
  · rw [if_pos hfirst, if_neg hfirst]

theorem store_eq (m : Memory) (s : Store) :
    m.store s = if s.Fits m.size then .ok (m.placed s)
      else .error (m.outside (s.refused m.size)) := by
  cases s with
  | write a v => rfl
  | load image base =>
    by_cases h : (Store.load image base).Fits m.size
    · rw [if_pos h]
      exact load_of_fits h
    · rw [if_neg h]
      exact load_of_not_fits h

theorem store_eq_ok_iff : m.store s = .ok m' ↔ s.Fits m.size ∧ m' = m.placed s := by
  rw [store_eq]
  by_cases h : s.Fits m.size
  · rw [if_pos h]
    exact ⟨fun hm => ⟨h, (Except.ok.inj hm).symm⟩, fun hm => by rw [hm.2]⟩
  · rw [if_neg h]
    exact ⟨nofun, fun hm => absurd hm.1 h⟩

theorem store_eq_error_iff {f : Fault} :
    m.store s = .error f ↔ ¬ s.Fits m.size ∧ f = m.outside (s.refused m.size) := by
  rw [store_eq]
  by_cases h : s.Fits m.size
  · rw [if_pos h]
    exact ⟨nofun, fun hf => absurd h hf.1⟩
  · rw [if_neg h]
    exact ⟨fun hf => ⟨h, (Except.error.inj hf).symm⟩, fun hf => by rw [hf.2]⟩

theorem stored_eq (m : Memory) (s : Store) :
    m.stored s = if s.Fits m.size then m.placed s else m := by
  unfold stored
  rw [store_eq]
  by_cases h : s.Fits m.size
  · rw [if_pos h, if_pos h]
  · rw [if_neg h, if_neg h]

theorem size_placed (m : Memory) (s : Store) : (m.placed s).size = m.size := by
  cases s with
  | write a v => exact size_set m _ _
  | load image base => exact size_place m _ _

theorem size_stored (m : Memory) (s : Store) : (m.stored s).size = m.size := by
  rw [stored_eq]
  split
  · exact size_placed m s
  · rfl

/-- A store puts its values where it has any and leaves the other cells alone. -/
theorem cell_placed (hs : s.Fits m.size) (k : Nat) :
    (m.placed s).cell k = ((s.value? k).map UInt8.ofInt).getD (m.cell k) := by
  cases s with
  | write a v =>
    obtain ⟨h0, hlt⟩ := hs
    show (m.set a.toNat (UInt8.ofInt v)).cell k = _
    rw [cell_set, Store.value?]
    by_cases hk : (k : Int) = a
    · rw [if_pos ⟨by omega, by omega⟩, if_pos hk]
      rfl
    · rw [if_neg fun h => hk (by omega), if_neg hk]
      rfl
  | load image base =>
    show (m.place base.toNat image).cell k = _
    rw [Store.value?]
    rcases hs with rfl | ⟨h0, hroom⟩
    · simp [place]
    · rw [cell_place _ _ _ _ (by omega)]
      by_cases hk : base ≤ k
      · have hindex : ((k : Int) - base).toNat = k - base.toNat := by omega
        rw [if_pos hk, hindex]
        by_cases hin : k < base.toNat + image.length
        · rw [if_pos ⟨by omega, hin⟩, List.getD_eq_getElem?_getD,
            List.getElem?_eq_getElem (by omega)]
          simp
        · rw [if_neg fun h => hin h.2, List.getElem?_eq_none (by omega)]
          rfl
      · rw [if_neg fun h => hk (by omega), if_neg hk]
        rfl

/-! ## Many stores -/

def replay (m : Memory) (ss : List Store) : Memory :=
  ss.foldl stored m

theorem replay_concat (m : Memory) (ss : List Store) (s : Store) :
    m.replay (ss ++ [s]) = (m.replay ss).stored s := by
  unfold replay
  rw [List.foldl_append]
  rfl

theorem size_replay (m : Memory) (ss : List Store) : (m.replay ss).size = m.size := by
  induction ss generalizing m with
  | nil => rfl
  | cons s ss ih => exact (ih (m.stored s)).trans (size_stored m s)

/-- The stores that succeed when their turn comes. -/
def succeeded (m : Memory) : List Store → List Store
  | [] => []
  | s :: ss =>
    match m.store s with
    | .ok m' => s :: m'.succeeded ss
    | .error _ => m.succeeded ss

/-- As the size stays, which stores succeed can be told beforehand. -/
theorem succeeded_eq_filter (m : Memory) (ss : List Store) :
    m.succeeded ss = ss.filter fun s => decide (s.Fits m.size) := by
  induction ss generalizing m with
  | nil => rfl
  | cons s ss ih =>
    unfold succeeded
    rw [store_eq, List.filter_cons]
    by_cases hs : s.Fits m.size
    · have hrest := ih (m.placed s)
      rw [size_placed] at hrest
      rw [if_pos hs, if_pos (decide_eq_true hs)]
      exact congrArg (s :: ·) hrest
    · rw [if_neg hs, if_neg (by simpa using hs)]
      exact ih m

theorem succeeded_concat (m : Memory) (ss : List Store) (s : Store) :
    m.succeeded (ss ++ [s]) =
      if s.Fits m.size then m.succeeded ss ++ [s] else m.succeeded ss := by
  simp only [succeeded_eq_filter, List.filter_append]
  by_cases hs : s.Fits m.size
  · simp [hs]
  · simp [hs]

/-- Every cell holds the latest value that was stored there. -/
theorem cell_replay (m : Memory) (ss : List Store) (k : Nat) :
    (m.replay ss).cell k =
      ((Store.latest? k (m.succeeded ss)).map UInt8.ofInt).getD (m.cell k) := by
  -- The latest store is looked at first, so the induction takes it off the end.
  induction ss using List.reverseRecOn with
  | nil => rfl
  | append_singleton ss s ih =>
    rw [replay_concat, stored_eq, size_replay, succeeded_concat]
    by_cases hs : s.Fits m.size
    · rw [if_pos hs, if_pos hs, cell_placed (by rw [size_replay]; exact hs), ih,
        Store.latest?_concat]
      cases s.value? k with
      | none => rfl
      | some v => rfl
    · rw [if_neg hs, if_neg hs, ih]

/-! ## Images and snapshots byte by byte -/

/-- The bytes of an image, written one after the other. -/
def writes (m : Memory) (base : Int) : List UInt8 → Except Fault Memory
  | [] => .ok m
  | b :: bs => do (← m.write8 base b.toNat).writes (base + 1) bs

theorem writes_of_room {base : Int} {bs : List UInt8} (h0 : 0 ≤ base)
    (hroom : base + bs.length ≤ m.size) : m.writes base bs = .ok (m.place base.toNat bs) := by
  induction bs generalizing m base with
  | nil => rfl
  | cons b bs ih =>
    rw [List.length_cons] at hroom
    have hwrite : m.write8 base b.toNat = .ok (m.set base.toNat b) := by
      unfold write8
      rw [if_pos ⟨h0, by omega⟩, Byte.ofInt_toNat]
    have hnext : (base + 1).toNat = base.toNat + 1 := by omega
    have hrest : base + 1 + bs.length ≤ (m.set base.toNat b).size := by
      rw [size_set]
      omega
    have hwrites := ih (by omega : 0 ≤ base + 1) hrest
    rw [hnext] at hwrites
    unfold writes
    rw [hwrite]
    exact hwrites

/-- A successful load is as good as writing byte by byte. -/
theorem writes_of_load {image : List UInt8} {base : Int} (h : m.load image base = .ok m') :
    m.writes base image = .ok m' := by
  obtain ⟨hfits, rfl⟩ := store_eq_ok_iff (s := .load image base).1 h
  rcases hfits with rfl | ⟨h0, hroom⟩
  · rfl
  · exact writes_of_room h0 hroom

theorem snapshot_eq {start last : Int} (h0 : 0 ≤ start) (hle : start ≤ last)
    (hlt : last < m.size) :
    ∃ bytes, m.snapshot start (some last) = .ok bytes ∧
      bytes.map .ok = (List.range (last - start + 1).toNat).map fun (k : Nat) =>
        m.read8 (start + k) := by
  have hstart : m.Has start := ⟨h0, by omega⟩
  have hlast : m.Has last := ⟨by omega, hlt⟩
  have hcount : (last + 1).toNat - start.toNat = (last - start + 1).toNat := by omega
  refine ⟨m.cellsFrom start.toNat (last - start + 1).toNat, ?_, ?_⟩
  · unfold snapshot
    rw [Option.getD_some, if_neg (not_not_intro hstart), if_neg (not_not_intro hlast),
      toList_extract (by omega), hcount]
  · exact map_ok_cellsFrom h0 (by omega)

/-! ## The history of a fresh memory -/

theorem cell_zeros (n k : Nat) : (zeros n).cell k = 0 := by
  unfold zeros cell
  rw [Array.getD_eq_getD_getElem?, Array.getElem?_replicate]
  split <;> rfl

end Memory

namespace Machine

theorem perform_command (s : Store) (m : Machine) :
    perform s.command m = match m.memory.store s with
      | .ok mem => .ok .done { m with memory := mem }
      | .error f => .error (.fault f) m := by
  cases s with
  | write a v =>
    show (writeCell a v >>= fun _ => pure Reply.done) m = match m.memory.write8 a v with
      | .ok mem => .ok .done { m with memory := mem }
      | .error f => .error (.fault f) m
    rw [bind_apply, writeCell]
    cases m.memory.write8 a v <;> rfl
  | load image base =>
    show (load image (some base) >>= fun _ => pure Reply.done) m =
      match m.memory.load image base with
      | .ok mem => .ok .done { m with memory := mem }
      | .error f => .error (.fault f) m
    rw [bind_apply, load, Option.getD_some]
    cases m.memory.load image base <;> rfl

/-- A machine on which nothing else is done changes as its memory does. -/
theorem session_commands (m : Machine) (ss : List Store) :
    m.session (ss.map Store.command) = { m with memory := m.memory.replay ss } := by
  induction ss generalizing m with
  | nil => rfl
  | cons s ss ih =>
    have hfirst : after (perform s.command) m = { m with memory := m.memory.stored s } := by
      unfold after Memory.stored
      rw [perform_command]
      cases m.memory.store s <;> rfl
    show (after (perform s.command) m).session (ss.map Store.command) = _
    rw [hfirst, ih]
    rfl

end Machine

namespace Memory

/-- What is known of a memory of `size` cells that were zero before the stores `ss`. -/
structure Recalls (size : Nat) (ss : List Store) (m : Memory) : Prop where
  size_eq : m.size = size
  read_inside : ∀ a : Int, 0 ≤ a → a < size → ∃ b, m.read8 a = .ok b ∧
    (b.toNat : Int) = (Store.latest? a ((zeros size).succeeded ss)).getD 0 % 256
  read_outside : ∀ a : Int, a < 0 ∨ size ≤ a → m.read8 a = .error (.addressOutOfBounds a size)
  write_fails : ∀ a v : Int, (∃ f, m.write8 a v = .error f) ↔ a < 0 ∨ size ≤ a
  load_fails : ∀ image base, (∃ f, m.load image base = .error f) ↔
    image ≠ [] ∧ (base < 0 ∨ (size : Int) < base + image.length)
  load_ok : ∀ image base m', m.load image base = .ok m' → m.writes base image = .ok m'
  load_nil : ∀ base, m.load [] base = .ok m
  snapshot_ok : ∀ first last : Int, 0 ≤ first → first ≤ last → last < size →
    ∃ bytes, m.snapshot first (some last) = .ok bytes ∧
      bytes.map .ok = (List.range (last - first + 1).toNat).map fun (k : Nat) =>
        m.read8 (first + k)

theorem exists_error_iff (m : Memory) (s : Store) :
    (∃ f, m.store s = .error f) ↔ ¬ s.Fits m.size :=
  ⟨fun ⟨_, h⟩ => (store_eq_error_iff.1 h).1, fun h => ⟨_, store_eq_error_iff.2 ⟨h, rfl⟩⟩⟩

theorem read8_replay_zeros {size : Nat} (ss : List Store) {a : Int} (h0 : 0 ≤ a) (hlt : a < size) :
    ∃ b, ((zeros size).replay ss).read8 a = .ok b ∧
      (b.toNat : Int) = (Store.latest? a ((zeros size).succeeded ss)).getD 0 % 256 := by
  obtain ⟨k, rfl⟩ := Int.eq_ofNat_of_zero_le h0
  have hk : k < ((zeros size).replay ss).size := by
    rw [size_replay, size_zeros]
    omega
  refine ⟨((zeros size).replay ss).cell k, ?_, ?_⟩
  · rw [read8_natCast, if_pos hk]
  · rw [cell_replay, cell_zeros]
    cases Store.latest? k ((zeros size).succeeded ss) with
    | none => rfl
    | some v =>
      show ((UInt8.ofInt v).toNat : Int) = v % 256
      rw [Byte.toNat_ofInt]
      omega

theorem recalls_replay (size : Nat) (ss : List Store) :
    Recalls size ss ((zeros size).replay ss) := by
  have hsize : ((zeros size).replay ss).size = size := by rw [size_replay, size_zeros]
  refine ⟨hsize, fun a => read8_replay_zeros ss, ?_, ?_, ?_, ?_, load_nil _, ?_⟩
  · intro a ha
    unfold read8 outside
    rw [dif_neg fun h => by have := h.1; have := h.2; omega, hsize]
  · intro a v
    have hfails := exists_error_iff ((zeros size).replay ss) (.write a v)
    rw [hsize] at hfails
    apply hfails.trans
    show ¬ (_ ∧ _) ↔ _
    omega
  · intro image base
    have hfails := exists_error_iff ((zeros size).replay ss) (.load image base)
    rw [hsize] at hfails
    apply hfails.trans
    show ¬ (_ ∨ _ ∧ _) ↔ _
    rw [not_or]
    exact and_congr_right' (by omega)
  · intro image base m' h
    exact writes_of_load h
  · intro first last h0 hle hlt
    apply snapshot_eq h0 hle
    rw [hsize]
    exact hlt

/-- Memory is an array of bytes with checked bounds. It is created with zeros in it, wherever the
host can hold as many, and whatever is then stored, its size stays: a read inside gives the low
eight bits of the last value that was stored there, a read outside fails. A store fails just when
one of its addresses is outside, and a machine on which it fails is as before. An image that is
loaded might have been written byte by byte, and an empty one can be loaded anywhere. -/
theorem latest_stores_read_back (size : Nat) (ss : List Store) :
    (∀ room n m, create room n = .ok m ↔
      0 ≤ n ∧ Extent.Held room.bytes n ∧ m = zeros n.toNat) ∧
    Recalls size ss ((zeros size).replay ss) ∧
    ∀ n : Machine, n.session (ss.map Store.command) = { n with memory := n.memory.replay ss } ∧
      ∀ (s : Store) e n', Machine.perform s.command n = .error e n' → n' = n := by
  refine ⟨fun room n m => create_eq_ok_iff, recalls_replay size ss, fun n => ?_⟩
  refine ⟨Machine.session_commands n ss, fun s e n' h => ?_⟩
  rw [Machine.perform_command] at h
  cases hs : n.memory.store s with
  | ok mem =>
    rw [hs] at h
    cases h
  | error f =>
    rw [hs] at h
    cases h
    rfl

/-- Two of these stores fail, one of them at its far end only. -/
theorem latest_stores_read_back_overlapping :
    let ss := [.load [1, 2, 3] 1, .write 2 (-1), .write 4 9, .load [7, 7] 3, .load [] (-5)]
    Recalls 4 ss ((zeros 4).replay ss) ∧ ((zeros 4).replay ss).cells = #[0, 1, 255, 3] :=
  ⟨(latest_stores_read_back 4 _).2.1, by decide⟩

end Memory

end Chip8
