import Mathlib.Logic.Relation
import Chip8.Proofs.Control
import Chip8.Proofs.Reset

/-!
# Calls and returns

While a called subroutine has not returned, the frame of its call lies on the stack, with the
frames of the callers below it: `Active link callers` says so. Every event of a run keeps this or is
the return that takes the frame off again (`Active.happens`), so a return always leads behind its
own call.
-/

namespace Chip8

/-- What happens to a machine while its program runs. -/
def Command.IsLive : Command → Prop
  | .step => True
  | .tick => True
  | .press _ => True
  | .release => True
  | _ => False

namespace Machine

variable {m n o : Machine} {r : Reply} {d : Nat}

/-! ## Events -/

/-- An event that succeeds. -/
def Happens (m : Machine) (r : Reply) (n : Machine) : Prop :=
  ∃ c : Command, c.IsLive ∧ perform c m = .ok r n

theorem happens_cases (h : Happens m r n) :
    (∃ i, r = .ran i ∧ step m = .ok i n) ∨ n.stack = m.stack := by
  obtain ⟨c, hc, h⟩ := h
  cases c with
  | step => exact .inl (perform_step_eq_ok_iff.1 h)
  | tick | press | release =>
    cases h
    exact .inr rfl
  | _ => exact hc.elim

/-- Some event leads on to a machine whose stack is not `d` deep. -/
def Onward (d : Nat) (m n : Machine) : Prop :=
  (∃ r, Happens m r n) ∧ n.stack.depth ≠ d

/-! ## Active calls -/

/-- The frame of a call that returns to `link` lies on those of its callers, and below those of
the calls made since. -/
def Active (link : UInt16) (callers : List UInt16) (m : Machine) : Prop :=
  ∃ inner, m.stack.frames = inner ++ link :: callers

variable {link : UInt16} {callers : List UInt16}

theorem Active.depth_lt (h : Active link callers m) : callers.length < m.stack.depth := by
  obtain ⟨inner, hf⟩ := h
  unfold CallStack.depth
  rw [hf, List.length_append, List.length_cons]
  omega

theorem Active.take_entries (h : Active link callers m) :
    m.stack.entries.take (callers.length + 1) = callers.reverse ++ [link] := by
  obtain ⟨inner, hf⟩ := h
  have hentries : m.stack.entries = (callers.reverse ++ [link]) ++ inner.reverse := by
    unfold CallStack.entries
    rw [hf, List.reverse_append, List.reverse_cons]
  have hlength : (callers.reverse ++ [link]).length = callers.length + 1 := by simp
  rw [hentries, ← hlength, List.take_left]

theorem Active.of_stack_eq (h : Active link callers m) (hs : n.stack = m.stack) :
    Active link callers n := by
  unfold Active
  rw [hs]
  exact h

/-- The call stays active, or else it has just returned. -/
theorem Active.happens (h : Active link callers m) (hr : Happens m r n) :
    Active link callers n ∨
      (r = .ran (.plain .ret) ∧ n.registers.pc = link ∧ n.stack.frames = callers) := by
  rcases happens_cases hr with ⟨i, rfl, hs⟩ | hkept
  · obtain ⟨inner, hf⟩ := h
    have hpc := counter_of_step hs
    have hstack := restacked_of_step hs
    unfold Active
    generalize n.stack = s at hstack ⊢
    cases hstack with
    | call nnn =>
      refine .inl ⟨UInt16.ofInt (m.registers.pc.toNat + 2) :: inner, ?_⟩
      rw [List.cons_append, ← hf]
    | @ret a rest hframes =>
      rw [hf] at hframes
      cases inner with
      | nil =>
        obtain ⟨rfl, rfl⟩ := List.cons.inj hframes
        have htop : m.nextAddress (.plain .ret) = link.toNat := by
          rw [nextAddress, hf]
          rfl
        rw [htop, Word.ofInt_toNat] at hpc
        exact .inr ⟨rfl, hpc, rfl⟩
      | cons b inner =>
        obtain ⟨-, rfl⟩ := List.cons.inj hframes
        exact .inl ⟨inner, rfl⟩
    | other => exact .inl ⟨inner, hf⟩
  · exact .inl (h.of_stack_eq hkept)

/-- A call that has not returned is active. -/
theorem Active.onward (h : Active link callers m)
    (hr : Relation.ReflTransGen (Onward callers.length) m n) : Active link callers n := by
  induction hr with
  | refl => exact h
  | tail _ hnext ih =>
    obtain ⟨⟨r, hhappens⟩, hdepth⟩ := hnext
    rcases ih.happens hhappens with hactive | ⟨-, -, hframes⟩
    · exact hactive
    · exact absurd (congrArg List.length hframes) hdepth

/-- Calls and returns match. Let a step of a reachable machine, with its stack `d` deep, be a call,
and take any events from there, steps, ticks and keys, up to a point where the stack has not been
`d` deep again. Then it is deeper, and its lowest entries are still those that the call has left:
the entries from before the call, and the address behind it. If the next event makes it `d` deep, it
is a return; it leads to that address, and leaves the entries from before the call. -/
theorem call_returns {m₁ : Machine} {a : Int} (hm : m.Reachable)
    (hcall : step m = .ok (.addr .call a) m₁)
    (hon : Relation.ReflTransGen (Onward m.stack.depth) m₁ n) :
    (m.stack.depth < n.stack.depth ∧
      n.stack.entries.take (m.stack.depth + 1) = m₁.stack.entries ∧
      ∃ link : UInt16, link.toNat = m.registers.pc.toNat + 2 ∧
        m₁.stack.entries = m.stack.entries ++ [link]) ∧
    ∀ r o, Happens n r o → o.stack.depth = m.stack.depth →
      r = .ran (.plain .ret) ∧ o.registers.pc.toNat = m.registers.pc.toNat + 2 ∧
        o.stack.entries = m.stack.entries := by
  have hlink : (UInt16.ofInt (m.registers.pc.toNat + 2)).toNat = m.registers.pc.toNat + 2 := by
    have hpc := counter_lt_of_fetched (step_eq_ok_iff.1 hcall).1
    have hsize := hm.memory_le
    unfold Config.maxMemory at hsize
    rw [Word.toNat_ofInt]
    omega
  have hframes := frames_of_call hcall
  have hactive := Active.onward ⟨[], hframes⟩ hon
  have hentries : m₁.stack.entries =
      m.stack.entries ++ [UInt16.ofInt (m.registers.pc.toNat + 2)] := by
    unfold CallStack.entries
    rw [hframes, List.reverse_cons]
  refine ⟨⟨hactive.depth_lt, ?_, _, hlink, hentries⟩, fun r o hr hdepth => ?_⟩
  · rw [hentries]
    exact hactive.take_entries
  · rcases hactive.happens hr with hstill | ⟨hret, hpc, hframes⟩
    · exact absurd hdepth hstill.depth_lt.ne'
    · refine ⟨hret, ?_, congrArg List.reverse hframes⟩
      rw [hpc, hlink]

/-- A subroutine that only returns. -/
def returning : List UInt8 :=
  [0x20, 0x58, 0x00, 0xE0, 0x00, 0xEE]

/-- A tick comes between the call and the return. -/
theorem call_returns_returning :
    ∃ m m₁ n o, m.Reachable ∧ step m = .ok (.addr .call 0x58) m₁ ∧
      Relation.ReflTransGen (Onward m.stack.depth) m₁ n ∧
      n.stack.entries.take (m.stack.depth + 1) = m₁.stack.entries ∧
      Happens n (.ran (.plain .ret)) o ∧ o.registers.pc.toNat = m.registers.pc.toNat + 2 ∧
      o.stack.entries = m.stack.entries := by
  obtain ⟨m, hm, hreplies⟩ := exists_reachable small [.load returning none]
    (fun m => decide (m.replies [.step, .tick, .step] =
      [some (.ran (.addr .call 0x58)), some .done, some (.ran (.plain .ret))]))
    (by decide) (by decide +kernel)
  obtain ⟨m₁, hcall, hreplies⟩ := perform_of_replies (of_decide_eq_true hreplies)
  obtain ⟨n, htick, hreplies⟩ := perform_of_replies hreplies
  obtain ⟨o, hret, -⟩ := perform_of_replies hreplies
  obtain ⟨_, hi, hstep⟩ := perform_step_eq_ok_iff.1 hcall
  obtain ⟨_, hj, hback⟩ := perform_step_eq_ok_iff.1 hret
  cases hi
  cases hj
  cases htick
  obtain ⟨a, hframes⟩ := frames_of_ret hback
  have hstack := (frames_of_call hstep).symm.trans hframes
  have hdepth : o.stack.depth = m.stack.depth :=
    congrArg List.length (List.cons.inj hstack).2.symm
  have hdeep : (after tick m₁).stack.depth ≠ m.stack.depth := by
    have hlength := congrArg List.length (frames_of_call hstep)
    exact (Nat.lt_of_lt_of_eq (Nat.lt_succ_self _) hlength.symm).ne'
  have hon : Relation.ReflTransGen (Onward m.stack.depth) m₁ (after tick m₁) :=
    .single ⟨⟨.done, .tick, trivial, rfl⟩, hdeep⟩
  obtain ⟨⟨-, htake, -⟩, hreturn⟩ := call_returns hm hstep hon
  have hhappens : Happens (after tick m₁) (.ran (.plain .ret)) o := ⟨.step, trivial, hret⟩
  obtain ⟨-, hpc, hentries⟩ := hreturn _ o hhappens hdepth
  exact ⟨m, m₁, _, o, hm, hstep, hon, htake, hhappens, hpc, hentries⟩

end Machine

end Chip8
