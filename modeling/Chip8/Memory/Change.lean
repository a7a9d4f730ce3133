/-!
# Changes between snapshots

`changes old new base` lists the positions at which two runs of bytes differ,
in order, with the byte before and after. It looks no further than the shorter
run; `base` is the address of the first byte.
-/

namespace Chip8

structure Change where
  address : Int
  old : UInt8
  new : UInt8
  deriving DecidableEq, Repr

namespace Change

def changes : (old new : List UInt8) → (base : Int) → List Change
  | a :: as, b :: bs, base =>
    if a = b then changes as bs (base + 1)
    else ⟨base, a, b⟩ :: changes as bs (base + 1)
  | _, _, _ => []

theorem changes_self (as : List UInt8) (base : Int) : changes as as base = [] := by
  induction as generalizing base with
  | nil => rfl
  | cons a as ih => simp [changes, ih]

theorem old_ne_new_of_mem {as bs : List UInt8} {base : Int} {c : Change}
    (h : c ∈ changes as bs base) : c.old ≠ c.new := by
  fun_induction changes as bs base with
  | case1 as b bs base ih => exact ih h
  | case2 a as b bs base hab ih =>
    rcases List.mem_cons.1 h with rfl | h
    · exact hab
    · exact ih h
  | case3 => simp at h

end Change

end Chip8
