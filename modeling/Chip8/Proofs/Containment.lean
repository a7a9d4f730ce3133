import Chip8.Proofs.Atomicity
import Chip8.Proofs.Control
import Chip8.Proofs.Reset
import Chip8.Proofs.Stopping

/-!
# The counter does not wrap

A machine is `Contained` if its counter is at most 254 past the end of memory and no return address
is past the end at all. Steps keep this, because instructions are only fetched from inside memory;
so does everything that is asked of a machine from outside, unless it sets the counter or pushes an
address. No address that such a machine goes on at is ever cut to a word.
-/

namespace Chip8

/-- The commands that set the counter or push an address, whatever the program. -/
def Command.SetsControl : Command → Prop
  | .execute _ => True
  | .setCounter _ => True
  | .push _ => True
  | _ => False

namespace Machine

variable {c : Config} {m n : Machine} {i : Instr}

/-! ## Contained machines -/

structure Contained (c : Config) (m : Machine) : Prop where
  config : m.config = c
  memory : (m.memory.size : Int) = c.memorySize
  counter : (m.registers.pc.toNat : Int) ≤ c.memorySize + 254
  entries : ∀ a ∈ m.stack.entries, (a.toNat : Int) ≤ c.memorySize

/-- The counter has not moved, and nothing has been pushed. -/
structure Keeps (m n : Machine) : Prop where
  build : SameBuild m n
  counter : n.registers.pc = m.registers.pc
  entries : n.stack.entries ⊆ m.stack.entries

theorem Contained.of_keeps (h : Contained c m) (hk : Keeps m n) : Contained c n where
  config := hk.build.config.trans h.config
  memory := by rw [hk.build.memory, h.memory]
  counter := by rw [hk.counter]; exact h.counter
  entries a ha := h.entries a (hk.entries ha)

theorem closedOn_keeps : ClosedOn (fun p => p ≠ .setCounter ∧ p ≠ .push) Keeps where
  refl m := ⟨commandClosed_sameBuild.refl m, rfl, fun _ h => h⟩
  trans h₁ h₂ := ⟨commandClosed_sameBuild.trans h₁.build h₂.build, h₂.counter.trans h₁.counter,
    fun _ h => h₁.entries (h₂.entries h)⟩
  setRegister _ m _ _ := ⟨commandClosed_sameBuild.registers m _, rfl, fun _ h => h⟩
  setFlag _ m _ := ⟨commandClosed_sameBuild.registers m _, rfl, fun _ h => h⟩
  setIndex _ m _ := ⟨commandClosed_sameBuild.registers m _, rfl, fun _ h => h⟩
  setCounter h := absurd rfl h.1
  write _ m a v mem hm := ⟨commandClosed_sameBuild.write m a v mem hm, rfl, fun _ h => h⟩
  push h := absurd rfl h.2
  pop _ m a s hs := by
    refine ⟨commandClosed_sameBuild.pop m a s hs, rfl, ?_⟩
    rw [CallStack.entries_of_pop hs]
    exact List.subset_append_left _ _
  setDelay _ m _ := ⟨commandClosed_sameBuild.timers m _, rfl, fun _ h => h⟩
  setSound _ m _ := ⟨commandClosed_sameBuild.timers m _, rfl, fun _ h => h⟩
  clear _ m := ⟨commandClosed_sameBuild.clear m, rfl, fun _ h => h⟩
  draw _ m row col bs s b hd :=
    ⟨commandClosed_sameBuild.draw m row col bs s b hd, rfl, fun _ h => h⟩
  random _ m := ⟨commandClosed_sameBuild.random m, rfl, fun _ h => h⟩

/-! ## Steps -/

/-- The next instruction is not far away. -/
theorem nextAddress_bounds (hf : m.fetched = .ok i)
    (hentries : ∀ a ∈ m.stack.entries, a.toNat ≤ m.memory.size) :
    0 ≤ m.nextAddress i ∧ m.nextAddress i ≤ m.memory.size + 254 := by
  refine nextAddress_le hf _ (Nat.le_refl _) ?_
  cases hframes : m.stack.frames with
  | nil => exact Nat.zero_le _
  | cons a rest =>
    have hmem : a ∈ m.stack.entries := by simp [CallStack.entries, hframes]
    have hle := hentries a hmem
    rw [List.headD_cons]
    omega

/-- Where both bytes of an instruction are not in memory, none is fetched. -/
theorem fetched_of_le (h : m.memory.size ≤ m.registers.pc.toNat + 1) :
    m.fetched = .error (transferFault m.memory.size m.registers.pc.toNat) := by
  unfold fetched Memory.read16
  have hlow : (m.registers.pc.toNat : Int) + 1 = (m.registers.pc.toNat + 1 : Nat) := rfl
  rw [hlow, Memory.read8_natCast, Memory.read8_natCast, if_neg (Nat.not_lt.2 h)]
  by_cases hpc : m.registers.pc.toNat < m.memory.size
  · rw [if_pos hpc, ← transferFault_of_lt hpc, transferFault_of_not_lt (Nat.not_lt.2 h)]
    rfl
  · rw [if_neg hpc, transferFault_of_not_lt hpc]
    rfl

theorem keeps_of_fault {f : Fault} (h : step m = .error (.fault f) n) : Keeps m n := by
  have hbuild := commandClosed_sameBuild.step m
  rw [after_of_error h] at hbuild
  rcases step_eq_fault_iff.1 h with ⟨-, rfl⟩ | ⟨i, n', hf, hx, rfl⟩
  · exact closedOn_keeps.refl n
  · have hsame := (fails_of_execute (fits_of_fetched hf) hx).sameAround.rewound
    refine ⟨hbuild, hsame.counter, ?_⟩
    rw [hsame.stack]
    exact fun _ ha => ha

/-- If the first machine is contained, the second is, too. -/
def Stays (c : Config) (m n : Machine) : Prop :=
  Contained c m → Contained c n

theorem isPreorder_stays : IsPreorder (Stays c) where
  refl _ h := h
  trans h₁ h₂ h := h₂ (h₁ h)

/-- Nothing but components that do not matter has changed. -/
theorem stays_of_eq (hconfig : n.config = m.config) (hmemory : n.memory.size = m.memory.size)
    (hregisters : n.registers.pc = m.registers.pc) (hstack : n.stack = m.stack) : Stays c m n := by
  intro h
  refine ⟨hconfig.trans h.config, ?_, ?_, ?_⟩
  · rw [hmemory, h.memory]
  · rw [hregisters]
    exact h.counter
  · rw [hstack]
    exact h.entries

theorem carries_of_keeps {α : Type} {a : Action α} (ha : Carries Keeps a) :
    Carries (Stays c) a := fun m h => h.of_keeps (ha m)

theorem carries_load (image : List UInt8) (base? : Option Int) :
    Carries (Stays c) (load image base?) := by
  intro m
  unfold after load
  cases hload : m.memory.load image (base?.getD m.config.programStart) with
  | ok mem => exact stays_of_eq rfl (Memory.size_of_load hload) rfl rfl
  | error f => exact isPreorder_stays.refl m

section

variable (hc : c.Accepted)

include hc

/-- The address at which a contained machine goes on is not cut to a word. -/
theorem Contained.counter_eq (h : Contained c m) (hs : step m = .ok i n) :
    (n.registers.pc.toNat : Int) = m.nextAddress i := by
  have hsize := hc.size_le
  have hmemory := h.memory
  have hbounds := nextAddress_bounds (step_eq_ok_iff.1 hs).1 fun a ha => by
    have hle := h.entries a ha
    omega
  unfold Config.maxMemory at hsize
  rw [counter_of_step hs, Word.toNat_ofInt]
  omega

theorem Contained.step_ok (h : Contained c m) (hs : step m = .ok i n) : Contained c n := by
  have hbuild := commandClosed_sameBuild.step m
  rw [after_of_ok hs] at hbuild
  have hf := (step_eq_ok_iff.1 hs).1
  have hmemory := h.memory
  refine ⟨hbuild.config.trans h.config, by rw [hbuild.memory, h.memory], ?_, fun a ha => ?_⟩
  · have hbounds := nextAddress_bounds hf fun a ha => by
      have hle := h.entries a ha
      omega
    rw [h.counter_eq hc hs]
    omega
  · have hstack := restacked_of_step hs
    unfold CallStack.entries at ha
    rw [List.mem_reverse] at ha
    generalize n.stack = s at hstack ha
    cases hstack with
    | call nnn =>
      rcases List.mem_cons.1 ha with rfl | hold
      · have hpc := counter_lt_of_fetched hf
        have hsize := hc.size_le
        unfold Config.maxMemory at hsize
        rw [Word.toNat_ofInt]
        omega
      · exact h.entries a (List.mem_reverse.2 hold)
    | ret hframes =>
      apply h.entries a
      unfold CallStack.entries
      rw [hframes, List.mem_reverse]
      exact List.mem_cons_of_mem _ ha
    | other => exact h.entries a (List.mem_reverse.2 ha)

/-- Whether a step succeeds or fails. -/
theorem runClosed_stays : RunClosed (Stays c) where
  refl := isPreorder_stays.refl
  trans := isPreorder_stays.trans
  step m h := by
    rcases step_ok_or_fault m with ⟨i, n, hs⟩ | ⟨f, n, hs⟩
    · rw [after_of_ok hs]
      exact h.step_ok hc hs
    · rw [after_of_error hs]
      exact h.of_keeps (keeps_of_fault hs)
  tick _ := stays_of_eq rfl rfl rfl rfl
  lastFault _ _ := stays_of_eq rfl rfl rfl rfl

theorem Contained.passes {k : Int} {j : Nat} (h : Contained c m) (hp : Passes k m j n) :
    Contained c n := by
  induction hp with
  | start => exact h
  | @turn j s n i _ hs ih =>
    have hn := ih.step_ok hc hs
    by_cases hk : k ∣ (j + 1 : Int)
    · rw [if_pos hk]
      exact (runClosed_stays hc).tick n hn
    · rw [if_neg hk]
      exact hn

/-! ## Commands -/

theorem counter_booted (hm : m.config = c) :
    (m.booted.registers.pc.toNat : Int) = c.programStart := by
  have hfirst := hc.font_nonneg
  have hfont := hc.font_le
  have hstart := hc.start_lt
  have hsize := hc.size_le
  have hpc : m.booted.registers.pc = UInt16.ofInt m.config.programStart := rfl
  unfold Font.size at hfont
  unfold Config.maxMemory at hsize
  rw [hpc, hm, Word.toNat_ofInt]
  omega

theorem Contained.of_booted (hm : m.config = c) (hsize : (m.memory.size : Int) = c.memorySize) :
    Contained c m.booted where
  config := hm
  memory := by
    rw [(SameBuild.booted m).memory]
    exact hsize
  counter := by
    have hstart := hc.start_lt
    rw [counter_booted hc hm]
    omega
  entries := nofun

theorem Contained.boot_eq (h : Contained c m) : boot m = .ok () m.booted := by
  have hfont := hc.font_le
  have hstart := hc.start_lt
  refine boot_eq_ok_iff.2 ⟨?_, rfl⟩
  unfold Bootable
  rw [h.config, h.memory]
  exact ⟨hc.font_nonneg, by omega⟩

theorem Contained.of_create {room : Room} (h : create room c = .ok m) : Contained c m := by
  obtain ⟨screen, -, hboot⟩ := exists_boot_of_create h
  obtain ⟨-, rfl⟩ := boot_eq_ok_iff.1 hboot
  refine .of_booted hc rfl ?_
  show ((Memory.zeros c.memorySize.toNat).size : Int) = c.memorySize
  rw [Memory.size_zeros, Int.toNat_of_nonneg hc.memorySize_nonneg]

theorem carries_boot : Carries (Stays c) boot := by
  intro m h
  rw [after_of_ok (h.boot_eq hc)]
  exact .of_booted hc h.config h.memory

/-- Whatever is asked of a machine, unless it is to set the counter. -/
theorem carries_stays {d : Command} (hd : ¬ d.SetsControl) : Carries (Stays c) (perform d) := by
  have hR := runClosed_stays hc
  have hdone {a : Action Unit} (ha : Carries (Stays c) a) :
      Carries (Stays c) (a >>= fun _ => pure Reply.done) :=
    Carries.bind isPreorder_stays ha fun _ => Carries.pure isPreorder_stays _
  cases d with
  | step => exact Carries.bind isPreorder_stays hR.step fun i => Carries.pure isPreorder_stays _
  | run budget cadence =>
    exact Carries.bind isPreorder_stays (hR.run budget cadence) fun r =>
      Carries.bind isPreorder_stays (Carries.get isPreorder_stays) fun m =>
        Carries.pure isPreorder_stays _
  | load image base => exact hdone (carries_load image base)
  | tick => exact hdone hR.tick
  | boot => exact hdone (carries_boot hc)
  | reset =>
    exact hdone (Carries.bind isPreorder_stays (carries_boot hc) fun _ =>
      Carries.modify fun _ => stays_of_eq rfl rfl rfl rfl)
  | poke address value =>
    exact hdone (carries_of_keeps (closedOn_keeps.writeCell (by decide) address value))
  | setRegister x value =>
    exact hdone (carries_of_keeps (closedOn_keeps.writeRegister (by decide) x value))
  | pop =>
    exact Carries.bind isPreorder_stays (carries_of_keeps (closedOn_keeps.popAddress (by decide)))
      fun a => Carries.pure isPreorder_stays _
  | draw row col sprite =>
    exact Carries.bind isPreorder_stays
      (carries_of_keeps (closedOn_keeps.drawSprite (by decide) row col sprite))
      fun b => Carries.pure isPreorder_stays _
  | press | release | setIndex | setDelay | setSound | clearScreen | addBreakpoint
  | removeBreakpoint | setTracing | clearTrace =>
    exact hdone (Carries.modify fun _ => stays_of_eq rfl rfl rfl rfl)
  | _ => exact absurd trivial hd

end

/-- The counter never wraps. Let a machine with `S` cells be created, be asked for anything but to
set the counter or to push an address, and be stopped anywhere, also in the middle of a run. Then
its counter is at most `S + 254` and every address on its stack at most `S`. So the counter moves
past an instruction, and on to the next one, without being cut to a word; booting sets it to the
program start. From `S - 1` on there is no instruction, and a step fails for that. -/
theorem counter_never_wraps {room : Room} (ha : c.rejection? = none) (hm : create room c = .ok m)
    {cs : List Command} (hcs : ∀ d ∈ cs, ¬ d.SetsControl) {k : Int} {j : Nat} {t : Machine}
    (ht : Passes k (m.session cs) j t) :
    ((t.registers.pc.toNat : Int) ≤ c.memorySize + 254 ∧
      ∀ a ∈ t.stack.entries, (a.toNat : Int) ≤ c.memorySize) ∧
    (∀ i, t.fetched = .ok i → (t.launched i).registers.pc.toNat = t.registers.pc.toNat + 2) ∧
    (∀ i n, step t = .ok i n → (n.registers.pc.toNat : Int) = t.nextAddress i) ∧
    (∀ f n, step t = .error (.fault f) n → n.registers.pc = t.registers.pc) ∧
    (∃ n, boot t = .ok () n ∧ (n.registers.pc.toNat : Int) = c.programStart) ∧
    (c.memorySize - 1 ≤ t.registers.pc.toNat →
      step t = .error (.fault
        (.addressOutOfBounds (max (t.registers.pc.toNat : Int) c.memorySize) c.memorySize)) t) := by
  have hc := Config.rejection?_eq_none_iff.1 ha
  have hsize := hc.size_le
  unfold Config.maxMemory at hsize
  have hfresh := Contained.of_create hc hm
  have hsession := carries_session isPreorder_stays (fun d hd => carries_stays hc (hcs d hd)) m
  have h := (hsession hfresh).passes hc ht
  have hmemory := h.memory
  refine ⟨⟨h.counter, h.entries⟩, fun i hf => ?_, fun i n hs => h.counter_eq hc hs,
    fun f n hs => (keeps_of_fault hs).counter, ⟨_, h.boot_eq hc, counter_booted hc h.config⟩,
    fun hpc => ?_⟩
  · have hlt := counter_lt_of_fetched hf
    rw [counter_launched, Word.toNat_ofInt]
    omega
  · have hfetch := fetched_of_le (m := t) (by omega)
    have hmax : ((max t.registers.pc.toNat t.memory.size : Nat) : Int) =
        max (t.registers.pc.toNat : Int) c.memorySize := by omega
    rw [step_eq, hfetch]
    show EStateM.Result.error (transferFault t.memory.size t.registers.pc.toNat) t = _
    unfold transferFault
    rw [hmax, hmemory]

/-- A jump as far as one can get. -/
def leaping : List UInt8 :=
  [0x60, 0xFF, 0xB0, 0x5F]

/-- The counter is at its bound, and the next step fails. -/
theorem counter_never_wraps_leaping :
    ∃ m t, create .unlimited small = .ok m ∧ t = m.session [.load leaping none, .step, .step] ∧
      t.registers.pc.toNat = 96 + 254 ∧
      step t = .error (.fault (.addressOutOfBounds 350 96)) t := by
  obtain ⟨m, hm, hpc⟩ := exists_create .unlimited small
    (fun m => decide
      ((m.session [.load leaping none, .step, .step]).registers.pc.toNat = 96 + 254))
    (by decide +kernel)
  have hpc := of_decide_eq_true hpc
  have hcs : ∀ d ∈ [Command.load leaping none, .step, .step], ¬ d.SetsControl := by
    intro d hd
    simp only [List.mem_cons, List.not_mem_nil, or_false] at hd
    rcases hd with rfl | rfl | rfl <;> exact id
  obtain ⟨-, -, -, -, -, houtside⟩ :=
    counter_never_wraps (by decide) hm hcs (k := 0) .start
  have hstep := houtside (by rw [hpc]; decide)
  rw [hpc] at hstep
  exact ⟨m, _, hm, rfl, hpc, hstep⟩

end Machine

end Chip8
