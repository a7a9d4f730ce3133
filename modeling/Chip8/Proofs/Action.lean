import Chip8.Machine.Command

/-!
# Reasoning about actions

What an action does to a machine, one equation per building block: a sequence runs its second
part on the state its first part leaves. `bind_eq_ok_iff` and `bind_eq_error_iff` take a run of
a sequence apart. `Carries R a` says that `a` leads from every machine to one related by `R`,
whether it succeeds or fails; for a preorder `R` it is closed under sequencing. `SameOutcome R`
compares two runs of an action, and is closed under sequencing for every `R`.
-/

namespace Chip8.Machine

variable {α β : Type}

/-! ## Equations -/

theorem bind_apply (a : Action α) (k : α → Action β) (m : Machine) :
    (a >>= k) m = match a m with
      | .ok x m' => k x m'
      | .error e m' => .error e m' := by
  show EStateM.bind a k m = _
  unfold EStateM.bind
  cases a m <;> rfl

@[simp] theorem pure_apply (x : α) (m : Machine) : (pure x : Action α) m = .ok x m := rfl

@[simp] theorem get_apply (m : Machine) : (get : Action Machine) m = .ok m m := rfl

@[simp] theorem modify_apply (f : Machine → Machine) (m : Machine) :
    (modify f : Action Unit) m = .ok () (f m) := rfl

@[simp] theorem fault_apply (f : Fault) (m : Machine) :
    (fault f : Action α) m = .error (.fault f) m := rfl

@[simp] theorem counter_apply (m : Machine) : counter m = .ok m.registers.pc m := rfl

@[simp] theorem index_apply (m : Machine) : index m = .ok m.registers.i m := rfl

@[simp] theorem setCounter_apply (v : Int) (m : Machine) :
    setCounter v m = .ok () { m with registers := m.registers.setCounter v } := rfl

/-- A register number from 0 to 15 is always read. -/
@[simp] theorem register_fin (s : Fin 16) (m : Machine) :
    register (s.val : Int) m = .ok (m.registers.v.get s) m := by
  unfold register Registers.read
  rw [Registers.slot?_fin]
  rfl

@[simp] theorem setRegister_fin (s : Fin 16) (v : Int) (m : Machine) :
    setRegister (s.val : Int) v m =
      .ok () { m with registers := m.registers.set s (UInt8.ofInt v) } := by
  simp [setRegister, Registers.write, Registers.slot?_fin]

/-! ## Runs of a sequence -/

theorem bind_eq_ok_iff {a : Action α} {k : α → Action β} {m m' : Machine} {y : β} :
    (a >>= k) m = .ok y m' ↔ ∃ x n, a m = .ok x n ∧ k x n = .ok y m' := by
  rw [bind_apply]
  cases h : a m with
  | ok x n =>
    exact ⟨fun hk => ⟨x, n, rfl, hk⟩, by rintro ⟨_, _, hx, hk⟩; cases hx; exact hk⟩
  | error e n => exact ⟨(nomatch ·), by rintro ⟨_, _, hx, _⟩; cases hx⟩

theorem bind_eq_error_iff {a : Action α} {k : α → Action β} {m m' : Machine} {e : Failure} :
    (a >>= k) m = .error e m' ↔
      a m = .error e m' ∨ ∃ x n, a m = .ok x n ∧ k x n = .error e m' := by
  rw [bind_apply]
  cases h : a m with
  | ok x n =>
    constructor
    · exact fun hk => .inr ⟨x, n, rfl, hk⟩
    · rintro (hx | ⟨_, _, hx, hk⟩)
      · cases hx
      · cases hx; exact hk
  | error e' n =>
    constructor
    · exact fun hx => .inl (by cases hx; rfl)
    · rintro (hx | ⟨_, _, hx, _⟩)
      · cases hx; rfl
      · cases hx

/-! ## Relations that actions carry -/

theorem after_of_ok {a : Action α} {m m' : Machine} {x : α} (h : a m = .ok x m') :
    after a m = m' := by
  simp [after, h]

theorem after_of_error {a : Action α} {m m' : Machine} {e : Failure} (h : a m = .error e m') :
    after a m = m' := by
  simp [after, h]

/-- `R` holds between every machine and the one that `a` leaves. -/
def Carries (R : Machine → Machine → Prop) (a : Action α) : Prop :=
  ∀ m, R m (after a m)

structure IsPreorder (R : Machine → Machine → Prop) : Prop where
  refl : ∀ m, R m m
  trans : ∀ {m n o}, R m n → R n o → R m o

namespace Carries

variable {R : Machine → Machine → Prop}

theorem pure (hR : IsPreorder R) (x : α) : Carries R (pure x : Action α) := hR.refl

theorem get (hR : IsPreorder R) : Carries R (get : Action Machine) := hR.refl

theorem fault (hR : IsPreorder R) (f : Fault) : Carries R (fault f : Action α) := hR.refl

theorem bind (hR : IsPreorder R) {a : Action α} {k : α → Action β} (ha : Carries R a)
    (hk : ∀ x, Carries R (k x)) : Carries R (a >>= k) := by
  intro m
  have hm := ha m
  cases h : a m with
  | ok x n =>
    rw [after_of_ok h] at hm
    have hb : after (a >>= k) m = after (k x) n := by
      simp only [after, bind_apply, h]
    rw [hb]
    exact hR.trans hm (hk x n)
  | error e n =>
    rw [after_of_error h] at hm
    rw [after_of_error (bind_eq_error_iff.2 (.inl h))]
    exact hm

theorem modify {f : Machine → Machine} (h : ∀ m, R m (f m)) :
    Carries R (modify f : Action Unit) := h

/-- An action that changes nothing. -/
theorem of_after_eq (hR : IsPreorder R) {a : Action α} (h : ∀ m, after a m = m) :
    Carries R a := by
  intro m
  rw [h m]
  exact hR.refl m

end Carries

/-! ## Two runs of one action -/

/-- Both succeed with the same result or fail in the same way, and leave related machines. -/
def SameOutcome {α : Type} (R : Machine → Machine → Prop)
    (r r' : EStateM.Result Failure Machine α) : Prop :=
  (∃ x m n, r = .ok x m ∧ r' = .ok x n ∧ R m n) ∨
    ∃ e m n, r = .error e m ∧ r' = .error e n ∧ R m n

namespace SameOutcome

variable {R : Machine → Machine → Prop} {m n : Machine}

theorem ok (x : α) (h : R m n) : SameOutcome R (.ok x m) (.ok x n) :=
  .inl ⟨x, m, n, rfl, rfl, h⟩

theorem error (e : Failure) (h : R m n) :
    SameOutcome R (.error e m : EStateM.Result Failure Machine α) (.error e n) :=
  .inr ⟨e, m, n, rfl, rfl, h⟩

theorem bind {a : Action α} {k : α → Action β} (h : SameOutcome R (a m) (a n))
    (hk : ∀ x m' n', R m' n' → SameOutcome R (k x m') (k x n')) :
    SameOutcome R ((a >>= k) m) ((a >>= k) n) := by
  rw [bind_apply, bind_apply]
  rcases h with ⟨x, m', n', hm, hn, hmn⟩ | ⟨e, m', n', hm, hn, hmn⟩
  · rw [hm, hn]
    exact hk x m' n' hmn
  · rw [hm, hn]
    exact .error e hmn

end SameOutcome

end Chip8.Machine
