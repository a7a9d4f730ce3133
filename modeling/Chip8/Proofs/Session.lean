import Chip8.Proofs.Cells
import Chip8.Proofs.Failing
import Chip8.Proofs.Runs

/-!
# Sessions

A machine is `Sound` for a configuration if its components have the sizes that were asked for and
the stack is within its capacity. Whatever is asked of a machine keeps it sound, so it is sound
after every session; and a step of it, or a run, ends as steps and runs should. A configuration
whose parts the host cannot hold makes no machine at all.
-/

namespace Chip8

namespace Config

/-- A screen can have these sides. -/
structure Displayable (c : Config) : Prop where
  width_pos : 0 < c.displayWidth
  aligned : c.displayWidth % 8 = 0
  height_pos : 0 < c.displayHeight

/-- The host can hold the memory, the stack and the screen. -/
structure Holdable (room : Room) (c : Config) : Prop where
  memory : Extent.Held room.bytes c.memorySize
  stack : Extent.Held room.slots c.stackDepth
  stride_isWord : Extent.IsWord (c.displayWidth / 8)
  rows : room.rows c.displayHeight.toNat (c.displayWidth / 8).toNat = true

end Config

/-- How long the picture is, if the sides of the screen are known. -/
theorem Screen.length_framebuffer {s : Screen} {w h : Int} (hw : (s.width : Int) = w)
    (hh : (s.height : Int) = h) : (s.framebuffer.length : Int) = h * (w / 8) := by
  have hsize : s.framebuffer.length = s.height * (s.width / 8) := by
    rw [framebuffer, Array.length_toList, s.size_bytes]
  rw [hsize, ← hw, ← hh, Int.natCast_mul]
  rfl

namespace Machine

variable {c : Config} {m : Machine}

/-- Every component is of the size that the configuration says. -/
structure Sound (c : Config) (m : Machine) : Prop where
  config : m.config = c
  memory : (m.memory.size : Int) = c.memorySize
  capacity : m.stack.capacity = c.stackDepth
  depth : (m.stack.depth : Int) ≤ c.stackDepth
  width : (m.screen.width : Int) = c.displayWidth
  height : (m.screen.height : Int) = c.displayHeight
  framebuffer : (m.screen.framebuffer.length : Int) = c.displayHeight * (c.displayWidth / 8)

theorem commandClosed_sound (c : Config) (hc : 0 ≤ c.stackDepth) :
    CommandClosed fun m m' => Sound c m → Sound c m' where
  refl _ h := h
  trans h₁ h₂ h := h₂ (h₁ h)
  registers _ _ h := { h with }
  timers _ _ h := { h with }
  write _ _ _ _ hm h := { h with memory := by rw [← h.memory, ← Memory.size_of_write8 hm] }
  push m a s hs h := by
    have hcap := CallStack.capacity_of_push hs
    have hdepth := CallStack.depth_le_of_push hs
    rw [hcap, h.capacity] at hdepth
    exact { h with capacity := hcap.trans h.capacity, depth := hdepth }
  pop m a s hs h := by
    have hdepth := h.depth
    unfold CallStack.depth at hdepth
    unfold CallStack.pop at hs
    cases hf : m.stack.frames with
    | nil => rw [hf] at hs; cases hs
    | cons a rest =>
      rw [hf] at hs hdepth
      cases hs
      refine { h with depth := ?_ }
      show (rest.length : Int) ≤ c.stackDepth
      rw [List.length_cons] at hdepth
      omega
  clear _ h := { h with framebuffer := Screen.length_framebuffer h.width h.height }
  draw _ _ _ _ _ _ hd h := by
    obtain ⟨hw, hh, -⟩ := Screen.size_draw hd
    have hwidth := (congrArg Nat.cast hw).trans h.width
    have hheight := (congrArg Nat.cast hh).trans h.height
    exact { h with
      width := hwidth
      height := hheight
      framebuffer := Screen.length_framebuffer hwidth hheight }
  random _ h := { h with }
  trace _ _ h := { h with }
  load _ _ _ _ hm h := { h with memory := by rw [← h.memory, ← Memory.size_of_load hm] }
  emptied _ h := { h with depth := hc }
  keypad _ _ h := { h with }
  reseeded _ h := ⟨h.config, h.memory, h.capacity, h.depth, h.width, h.height, h.framebuffer⟩
  breakpoints _ _ h := { h with }
  tracing _ _ h := { h with }
  lastFault _ _ h := { h with }

/-! ## Steps and runs -/

theorem exists_fault_of_fails {i : Instr} {e : Failure} {m' : Machine} (h : Fails m i e m') :
    ∃ f, e = .fault f := by
  cases h <;> exact ⟨_, rfl⟩

/-- A step never asks a component for what it does not have. -/
theorem step_ok_or_fault (m : Machine) :
    (∃ i m', step m = .ok i m') ∨ ∃ f m', step m = .error (.fault f) m' := by
  rw [step_eq]
  cases hf : m.fetched with
  | error e =>
    obtain ⟨f, rfl⟩ := exists_fault_of_fetched hf
    exact .inr ⟨f, m, rfl⟩
  | ok i =>
    cases hx : execute i (m.launched i) with
    | ok _ n =>
      refine .inl ⟨i, n, ?_⟩
      simp only [hx]
    | error e n =>
      obtain ⟨f, rfl⟩ := exists_fault_of_fails (fails_of_execute (fits_of_fetched hf) hx)
      refine .inr ⟨f, m.rewound n, ?_⟩
      simp only [hx]

theorem runFrom_ok {cadence : Int} (hc : cadence ≠ 0) (budget done : Nat) (m : Machine) :
    ∃ r m', runFrom cadence budget done m = .ok r m' := by
  induction budget generalizing done m with
  | zero => exact ⟨.timeout, m, rfl⟩
  | succ n ih =>
    rw [runFrom_succ hc]
    by_cases hb : done ≠ 0 ∧ m.atBreakpoint
    · rw [if_pos hb]
      exact ⟨.breakpoint, m, rfl⟩
    · rw [if_neg hb]
      rcases step_ok_or_fault m with ⟨i, n, hs⟩ | ⟨f, n, hs⟩
      · rw [hs]
        exact ih (done + 1) _
      · rw [hs]
        exact ⟨_, _, rfl⟩

theorem run_ok (hc : m.config.cadence ≠ 0) (budget : Int) :
    ∃ r m', run budget none m = .ok r m' := by
  unfold run
  rw [bind_apply, modify_apply]
  simp only [bind_apply, get_apply]
  exact runFrom_ok hc budget.toNat 0 _

/-! ## Replies -/

theorem perform_step_eq_ok_iff {n : Machine} {r : Reply} :
    perform .step m = .ok r n ↔ ∃ i, r = .ran i ∧ step m = .ok i n := by
  show (step >>= fun i => pure (.ran i)) m = .ok r n ↔ _
  rw [bind_eq_ok_iff]
  constructor
  · rintro ⟨i, n', hs, hr⟩
    cases hr
    exact ⟨i, rfl, hs⟩
  · rintro ⟨i, rfl, hs⟩
    exact ⟨i, n, hs, rfl⟩

theorem perform_run_of_ok {n : Machine} {budget : Int} {cadence? : Option Int}
    {reason : StopReason} (h : run budget cadence? m = .ok reason n) :
    perform (.run budget cadence?) m = .ok (.stopped reason n.lastFault) n :=
  bind_eq_ok_iff.2 ⟨reason, n, h, rfl⟩

/-! ## The machine of a configuration -/

theorem boot_ok (hs : Sound c m) (ha : c.Accepted) : ∃ m', boot m = .ok () m' := by
  have hfont : c.fontStart + Font.bytes.length ≤ m.memory.size := by
    rw [hs.memory, Font.length_bytes]
    exact Int.le_of_lt (Int.lt_of_le_of_lt ha.font_le ha.start_lt)
  have hl : load Font.bytes (some m.config.fontStart) m =
      .ok () { m with memory := m.memory.place c.fontStart.toNat Font.bytes } := by
    unfold load
    rw [Option.getD_some, hs.config, Memory.load_of_room ha.font_nonneg hfont]
  unfold boot
  rw [bind_apply, get_apply]
  simp only
  rw [bind_apply, hl]
  exact ⟨_, rfl⟩

/-! ## The parts of a machine -/

variable {room : Room}

/-- The blank screen of a configuration. -/
def blankScreen (hd : c.Displayable) : Screen :=
  have := hd.width_pos
  have := hd.aligned
  have := hd.height_pos
  .blank c.displayWidth.toNat c.displayHeight.toNat (by omega) (by omega) (by omega)

/-- The machine of a configuration, before it is booted. -/
def fresh (hd : c.Displayable) : Machine :=
  unbooted c (.zeros c.memorySize.toNat) (.empty c.stackDepth) (blankScreen hd)

/-- The machine of the usual configuration, before it is booted. -/
def usual : Machine :=
  fresh (c := {}) ⟨by decide, by decide, by decide⟩

theorem sound_fresh (ha : c.Accepted) (hd : c.Displayable) : Sound c (fresh hd) where
  config := rfl
  memory := by
    show ((Memory.zeros c.memorySize.toNat).size : Int) = c.memorySize
    rw [Memory.size_zeros, Int.toNat_of_nonneg ha.memorySize_nonneg]
  capacity := rfl
  depth := Int.le_of_lt ha.depth_pos
  width := Int.toNat_of_nonneg (Int.le_of_lt hd.width_pos)
  height := Int.toNat_of_nonneg (Int.le_of_lt hd.height_pos)
  framebuffer := Screen.length_framebuffer (Int.toNat_of_nonneg (Int.le_of_lt hd.width_pos))
    (Int.toNat_of_nonneg (Int.le_of_lt hd.height_pos))

theorem parts_of_holdable (ha : c.Accepted) (hd : c.Displayable) (hh : c.Holdable room) :
    parts room c = .ok (.zeros c.memorySize.toNat, .empty c.stackDepth, blankScreen hd) := by
  have hscreen := @Screen.create_of_sides room _ _ hd.width_pos hd.aligned hd.height_pos
  rw [if_neg (not_not_intro hh.stride_isWord), hh.rows, if_neg (by decide)] at hscreen
  unfold parts
  rw [Memory.create_of_held ha.memorySize_nonneg hh.memory, CallStack.create_of_held hh.stack,
    hscreen]
  rfl

/-- Parts that cannot be held are refused. -/
theorem parts_of_not_holdable (ha : c.Accepted) (hd : c.Displayable) (hh : ¬ c.Holdable room) :
    ∃ u, parts room c = .error u ∧ (u = .sizeTooWide ∨ u = .outOfMemory) := by
  unfold parts
  by_cases hmem : Extent.Held room.bytes c.memorySize
  · rw [Memory.create_of_held ha.memorySize_nonneg hmem]
    by_cases hstack : Extent.Held room.slots c.stackDepth
    · rw [CallStack.create_of_held hstack,
        Screen.create_of_sides hd.width_pos hd.aligned hd.height_pos]
      by_cases hstride : Extent.IsWord (c.displayWidth / 8)
      · have hrows : room.rows c.displayHeight.toNat (c.displayWidth / 8).toNat = false :=
          Bool.eq_false_iff.2 fun h => hh ⟨hmem, hstack, hstride, h⟩
        rw [if_neg (not_not_intro hstride), if_pos hrows]
        exact ⟨_, rfl, .inr rfl⟩
      · rw [if_pos hstride]
        exact ⟨_, rfl, .inl rfl⟩
    · rw [CallStack.create_of_not_held hstack]
      exact ⟨_, rfl, Extent.refusal_cases _⟩
  · rw [Memory.create_of_not_held ha.memorySize_nonneg hmem]
    exact ⟨_, rfl, Extent.refusal_cases _⟩

/-- What a machine that is made was before it was booted. -/
theorem exists_boot_of_create (h : create room c = .ok m) :
    ∃ screen, Screen.create room c.displayWidth c.displayHeight = .ok screen ∧
      boot (unbooted c (.zeros c.memorySize.toNat) (.empty c.stackDepth) screen) = .ok () m := by
  unfold create parts at h
  cases hmem : Memory.create room c.memorySize with
  | error u =>
    rw [hmem] at h
    cases h
  | ok memory =>
    cases hstack : CallStack.create room c.stackDepth with
    | error u =>
      rw [hmem, hstack] at h
      cases h
    | ok stack =>
      cases hscreen : Screen.create room c.displayWidth c.displayHeight with
      | error u =>
        rw [hmem, hstack, hscreen] at h
        cases h
      | ok screen =>
        obtain ⟨-, -, rfl⟩ := Memory.create_eq_ok_iff.1 hmem
        obtain rfl := CallStack.eq_empty_of_create hstack
        refine ⟨screen, rfl, ?_⟩
        simp only [hmem, hstack, hscreen, bind, Except.bind, pure, Except.pure] at h
        split at h
        · cases h
          assumption
        · cases h

/-! ## The machine of a configuration -/

theorem create_of_holdable (ha : c.Accepted) (hd : c.Displayable) (hh : c.Holdable room) :
    ∃ m, create room c = .ok m ∧ Sound c m := by
  have hu := sound_fresh ha hd
  obtain ⟨m, hb⟩ := boot_ok hu ha
  refine ⟨m, ?_, ?_⟩
  · unfold fresh at hb
    unfold create
    simp only [parts_of_holdable ha hd hh, hb]
  · rw [← after_of_ok hb]
    exact (commandClosed_sound c (Int.le_of_lt ha.depth_pos)).boot _ hu

/-- What cannot be held is refused, and not with a fault. -/
theorem create_of_not_holdable (ha : c.Accepted) (hd : c.Displayable) (hh : ¬ c.Holdable room) :
    create room c = .error (.misuse .sizeTooWide) ∨
      create room c = .error (.misuse .outOfMemory) := by
  obtain ⟨u, hparts, hu⟩ := parts_of_not_holdable ha hd hh
  have hcreate : create room c = .error (.misuse u) := by
    unfold create
    rw [hparts]
  rw [hcreate]
  rcases hu with rfl | rfl
  · exact .inl rfl
  · exact .inr rfl

/-- A machine of a displayable configuration is sound from the start. -/
theorem sound_of_create (ha : c.Accepted) (hd : c.Displayable) (h : create room c = .ok m) :
    Sound c m := by
  by_cases hh : c.Holdable room
  · obtain ⟨m', hm', hs⟩ := create_of_holdable ha hd hh
    rw [h] at hm'
    cases hm'
    exact hs
  · rcases create_of_not_holdable ha hd hh with he | he
    · rw [h] at he
      cases he
    · rw [h] at he
      cases he

/-- Two hosts that can make a machine make the same one. -/
theorem eq_of_create {room' : Room} {m' : Machine} (h : create room c = .ok m)
    (h' : create room' c = .ok m') : m' = m := by
  obtain ⟨screen, hscreen, hboot⟩ := exists_boot_of_create h
  obtain ⟨screen', hscreen', hboot'⟩ := exists_boot_of_create h'
  rw [Screen.eq_of_create hscreen hscreen', hboot] at hboot'
  cases hboot'
  rfl

/-- Some session with some accepted configuration on some host leads to `m`. -/
def Reachable (m : Machine) : Prop :=
  ∃ room c m₀ cs, c.rejection? = none ∧ create room c = .ok m₀ ∧ m = m₀.session cs

/-- What a configuration makes can be computed. -/
theorem exists_create (room : Room) (c : Config) (p : Machine → Bool)
    (h : (create room c).toOption.any p = true) : ∃ m, create room c = .ok m ∧ p m = true := by
  cases hm : create room c with
  | error e => rw [hm] at h; cases h
  | ok m =>
    rw [hm] at h
    exact ⟨m, rfl, h⟩

theorem exists_reachable (c : Config) (cs : List Command) (p : Machine → Bool)
    (hc : c.rejection? = none)
    (h : (create .unlimited c).toOption.any (fun m => p (m.session cs)) = true) :
    ∃ m, m.Reachable ∧ p m = true := by
  obtain ⟨m, hm, hp⟩ := exists_create _ c _ h
  exact ⟨m.session cs, ⟨_, c, m, cs, hc, hm, rfl⟩, hp⟩

theorem commandClosed_config : CommandClosed fun m m' => m'.config = m.config where
  refl _ := rfl
  trans h₁ h₂ := h₂.trans h₁
  registers _ _ := rfl
  timers _ _ := rfl
  write _ _ _ _ _ := rfl
  push _ _ _ _ := rfl
  pop _ _ _ _ := rfl
  clear _ := rfl
  draw _ _ _ _ _ _ _ := rfl
  random _ := rfl
  trace _ _ := rfl
  load _ _ _ _ _ := rfl
  emptied _ := rfl
  keypad _ _ := rfl
  reseeded _ := rfl
  breakpoints _ _ := rfl
  tracing _ _ := rfl
  lastFault _ _ := rfl

theorem config_of_create (h : create room c = .ok m) : m.config = c := by
  obtain ⟨screen, -, hboot⟩ := exists_boot_of_create h
  have hconfig := commandClosed_config.boot
    (unbooted c (.zeros c.memorySize.toNat) (.empty c.stackDepth) screen)
  rw [after_of_ok hboot] at hconfig
  exact hconfig

theorem Reachable.cadence_pos (hm : m.Reachable) : 0 < m.config.cadence := by
  obtain ⟨room, c, m₀, cs, hc, hm₀, rfl⟩ := hm
  rw [commandClosed_config.session m₀ cs, config_of_create hm₀]
  exact (Config.rejection?_eq_none_iff.1 hc).cadence_pos

end Machine

end Chip8
