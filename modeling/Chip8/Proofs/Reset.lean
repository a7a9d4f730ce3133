import Chip8.Proofs.Cells
import Chip8.Proofs.Session

/-!
# Resetting

What a reset makes of a machine depends on its build, its memory around the font and the trace
switch only (`reset_of_sameBuild`), and no command changes the build. A machine that has just been
created is not changed by a reset at all (`reset_of_create`), so that every reset leads back to it.
-/

namespace Chip8

/-! ## Memory around an area -/

namespace Memory

/-- Memory `m`, but for `n` cells from `a` on, which are those of `patch`. -/
def overlay (m patch : Memory) (a n : Nat) : Memory :=
  ⟨Array.ofFn fun k : Fin m.size => if a ≤ k ∧ k < a + n then patch.cell k else m.cell k⟩

@[simp] theorem size_overlay (m patch : Memory) (a n : Nat) :
    (m.overlay patch a n).size = m.size := by
  simp [overlay, size]

theorem cell_overlay {m : Memory} {k : Nat} (hk : k < m.size) (patch : Memory) (a n : Nat) :
    (m.overlay patch a n).cell k = if a ≤ k ∧ k < a + n then patch.cell k else m.cell k := by
  have hsize : k < (m.overlay patch a n).cells.size := by
    rw [← size, size_overlay]
    exact hk
  unfold cell
  rw [Array.getD_eq_getD_getElem?, Array.getElem?_eq_getElem hsize]
  simp [overlay, cell]

/-- The same bytes placed into two memories. -/
theorem place_eq_overlay {m p : Memory} {a : Nat} {bs : List UInt8} (hs : m.size = p.size)
    (h : a + bs.length ≤ m.size) : m.place a bs = m.overlay (p.place a bs) a bs.length := by
  refine ext_cell (by rw [size_place, size_overlay]) fun k hk => ?_
  rw [size_place] at hk
  rw [cell_overlay hk, cell_place m a k bs h, cell_place p a k bs (hs ▸ h)]
  split <;> rfl

theorem overlay_self (m : Memory) (a n : Nat) : m.overlay m a n = m := by
  refine ext_cell (size_overlay m m a n) fun k hk => ?_
  rw [size_overlay] at hk
  rw [cell_overlay hk, ite_self]

/-- Placing bytes twice is placing them once. -/
theorem place_place {m : Memory} {a : Nat} {bs : List UInt8} (h : a + bs.length ≤ m.size) :
    (m.place a bs).place a bs = m.place a bs := by
  rw [place_eq_overlay (size_place m a bs) (by rw [size_place]; exact h), overlay_self]

/-- The font is loaded wherever it fits. -/
theorem load_font_eq_ok_iff {m m' : Memory} {a : Int} : m.load Font.bytes a = .ok m' ↔
    0 ≤ a ∧ a + Font.size ≤ m.size ∧ m' = m.place a.toNat Font.bytes := by
  have hfits : m.Has a ∧ m.Has (a + Font.size - 1) ↔ 0 ≤ a ∧ a + Font.size ≤ m.size := by
    unfold Has Font.size
    omega
  rw [← and_assoc, ← hfits]
  rw [load_eq, if_neg (by decide), Font.length_bytes]
  by_cases hfirst : m.Has a <;> by_cases hlast : m.Has (a + Font.size - 1) <;>
    simp [hfirst, hlast, eq_comm]

end Memory

namespace Machine

variable {c : Config} {m m' n : Machine}

/-! ## The build of a machine -/

/-- The components have the same sizes, and the settings are the same. -/
structure SameBuild (m n : Machine) : Prop where
  config : n.config = m.config
  memory : n.memory.size = m.memory.size
  capacity : n.stack.capacity = m.stack.capacity
  width : n.screen.width = m.screen.width
  height : n.screen.height = m.screen.height

theorem commandClosed_sameBuild : CommandClosed SameBuild where
  refl _ := ⟨rfl, rfl, rfl, rfl, rfl⟩
  trans h₁ h₂ := ⟨h₂.config.trans h₁.config, h₂.memory.trans h₁.memory,
    h₂.capacity.trans h₁.capacity, h₂.width.trans h₁.width, h₂.height.trans h₁.height⟩
  registers _ _ := ⟨rfl, rfl, rfl, rfl, rfl⟩
  timers _ _ := ⟨rfl, rfl, rfl, rfl, rfl⟩
  write _ _ _ _ hm := ⟨rfl, Memory.size_of_write8 hm, rfl, rfl, rfl⟩
  push _ _ _ hs := ⟨rfl, rfl, CallStack.capacity_of_push hs, rfl, rfl⟩
  pop _ _ _ hs := ⟨rfl, rfl, CallStack.capacity_of_pop hs, rfl, rfl⟩
  clear _ := ⟨rfl, rfl, rfl, rfl, rfl⟩
  draw _ _ _ _ _ _ hd := ⟨rfl, rfl, rfl, (Screen.size_draw hd).1, (Screen.size_draw hd).2.1⟩
  random _ := ⟨rfl, rfl, rfl, rfl, rfl⟩
  trace _ _ := ⟨rfl, rfl, rfl, rfl, rfl⟩
  load _ _ _ _ hm := ⟨rfl, Memory.size_of_load hm, rfl, rfl, rfl⟩
  emptied _ := ⟨rfl, rfl, rfl, rfl, rfl⟩
  keypad _ _ := ⟨rfl, rfl, rfl, rfl, rfl⟩
  reseeded _ := ⟨rfl, rfl, rfl, rfl, rfl⟩
  breakpoints _ _ := ⟨rfl, rfl, rfl, rfl, rfl⟩
  tracing _ _ := ⟨rfl, rfl, rfl, rfl, rfl⟩
  lastFault _ _ := ⟨rfl, rfl, rfl, rfl, rfl⟩

/-! ## What a reset makes -/

/-- There is room for the font. -/
def Bootable (m : Machine) : Prop :=
  0 ≤ m.config.fontStart ∧ m.config.fontStart + Font.size ≤ m.memory.size

theorem Bootable.room (hb : m.Bootable) :
    m.config.fontStart.toNat + Font.bytes.length ≤ m.memory.size := by
  obtain ⟨h0, hle⟩ := hb
  rw [Font.length_bytes]
  omega

/-- What booting makes of a machine. -/
def booted (m : Machine) : Machine :=
  { m with
    memory := m.memory.place m.config.fontStart.toNat Font.bytes
    registers := Registers.cleared.setCounter m.config.programStart
    stack := m.stack.reset
    timers := Timers.stopped
    screen := m.screen.clear
    keypad := Keypad.idle }

/-- What a reset makes of it. -/
def renewed (m : Machine) : Machine :=
  { m.booted with
    random := randomFor m.config
    breakpoints := []
    trace := #[]
    lastFault := none }

theorem boot_eq_ok_iff : boot m = .ok () m' ↔ m.Bootable ∧ m' = m.booted := by
  have hload {mem : Memory} : m.memory.load Font.bytes m.config.fontStart = .ok mem ↔
      m.Bootable ∧ mem = m.memory.place m.config.fontStart.toNat Font.bytes := by
    rw [Memory.load_font_eq_ok_iff, ← and_assoc]
    rfl
  unfold boot
  simp only [bind_apply, get_apply, load, Option.getD_some]
  constructor
  · intro h
    split at h
    · rename_i hx
      split at hx
      · rename_i mem hmem
        cases hx
        cases h
        obtain ⟨hb, rfl⟩ := hload.1 hmem
        exact ⟨hb, rfl⟩
      · cases hx
    · cases h
  · rintro ⟨hb, rfl⟩
    rw [hload.2 ⟨hb, rfl⟩]
    rfl

theorem reset_eq_ok_iff : reset m = .ok () m' ↔ m.Bootable ∧ m' = m.renewed := by
  unfold reset
  rw [bind_eq_ok_iff]
  constructor
  · rintro ⟨x, n, hboot, h⟩
    obtain ⟨hb, rfl⟩ := boot_eq_ok_iff.1 hboot
    cases h
    exact ⟨hb, rfl⟩
  · rintro ⟨hb, rfl⟩
    exact ⟨(), m.booted, boot_eq_ok_iff.2 ⟨hb, rfl⟩, rfl⟩

/-- Booting twice is booting once. -/
theorem booted_booted (hb : m.Bootable) : m.booted.booted = m.booted := by
  have hplace := Memory.place_place hb.room
  unfold booted
  simp only [hplace]
  rfl

theorem SameBuild.bootable (h : SameBuild m n) (hb : m.Bootable) : n.Bootable := by
  unfold Bootable
  rw [h.config, h.memory]
  exact hb

theorem SameBuild.booted (m : Machine) : SameBuild m m.booted :=
  ⟨rfl, Memory.size_place _ _ _, rfl, rfl, rfl⟩

/-- `fresh` with the memory of `m` around the font. -/
def holding (fresh m : Machine) : Machine :=
  { fresh with
    memory := m.memory.overlay fresh.memory fresh.config.fontStart.toNat Font.size }

/-- Two machines of one build become the same, up to what is around the font and to the trace
switch. -/
theorem reset_of_sameBuild (h : SameBuild m n) (hm : reset m = .ok () m') :
    reset n = .ok () { m'.holding n with tracing := n.tracing } := by
  obtain ⟨hb, rfl⟩ := reset_eq_ok_iff.1 hm
  refine reset_eq_ok_iff.2 ⟨h.bootable hb, ?_⟩
  have hmem := Memory.place_eq_overlay h.memory (h.memory ▸ hb.room)
  have hstack : n.stack.reset = m.stack.reset := congrArg CallStack.empty h.capacity
  have hscreen : n.screen.clear = m.screen.clear := by
    unfold Screen.clear
    simp only [h.width, h.height]
  unfold holding renewed booted
  simp only [h.config, hstack, hscreen, hmem, Font.length_bytes]

variable {room : Room}

/-- A machine that has just been created is as new. -/
theorem reset_of_create (h : create room c = .ok m) : reset m = .ok () m := by
  obtain ⟨screen, -, hboot⟩ := exists_boot_of_create h
  obtain ⟨hb, rfl⟩ := boot_eq_ok_iff.1 hboot
  refine reset_eq_ok_iff.2 ⟨(SameBuild.booted _).bootable hb, ?_⟩
  unfold renewed
  rw [booted_booted hb]
  rfl

theorem size_of_create (h : create room c = .ok m) : m.memory.size = c.memorySize.toNat := by
  obtain ⟨screen, -, hboot⟩ := exists_boot_of_create h
  obtain ⟨-, rfl⟩ := boot_eq_ok_iff.1 hboot
  have hbuild := SameBuild.booted
    (unbooted c (.zeros c.memorySize.toNat) (.empty c.stackDepth) screen)
  rw [hbuild.memory]
  exact Memory.size_zeros _

/-- The settings of a reachable machine have been accepted, and its memory is as large as they
say. -/
theorem Reachable.built (hm : m.Reachable) :
    m.config.Accepted ∧ (m.memory.size : Int) = m.config.memorySize := by
  obtain ⟨room, c, fresh, cs, hc, hcreate, rfl⟩ := hm
  have hbuild := commandClosed_sameBuild.session fresh cs
  have ha := Config.rejection?_eq_none_iff.1 hc
  rw [hbuild.memory, hbuild.config, config_of_create hcreate, size_of_create hcreate]
  exact ⟨ha, Int.toNat_of_nonneg ha.memorySize_nonneg⟩

/-- Addresses of twelve bits reach all of its memory. -/
theorem Reachable.memory_le (hm : m.Reachable) : (m.memory.size : Int) ≤ Config.maxMemory := by
  obtain ⟨ha, hsize⟩ := hm.built
  rw [hsize]
  exact ha.size_le

theorem holding_self (m : Machine) : m.holding m = m := by
  unfold holding
  rw [Memory.overlay_self]

/-- A second reset does nothing. -/
theorem reset_of_reset (h : reset m = .ok () m') : reset m' = .ok () m' := by
  have hbuild : SameBuild m m' := by
    rw [← after_of_ok h]
    exact commandClosed_sameBuild.reset m
  have hagain := reset_of_sameBuild hbuild h
  rwa [holding_self] at hagain

/-! ## Sessions after a reset -/

/-- The replies and failures of a session, with the states that they leave. -/
def transcript : Machine → List Command → List (Except Failure Reply × Machine)
  | _, [] => []
  | m, c :: cs =>
    match perform c m with
    | .ok r n => (.ok r, n) :: n.transcript cs
    | .error e n => (.error e, n) :: n.transcript cs

theorem transcript_append (m : Machine) (cs ds : List Command) :
    m.transcript (cs ++ ds) = m.transcript cs ++ (m.session cs).transcript ds := by
  induction cs generalizing m with
  | nil => rfl
  | cons c cs ih =>
    have hsession : m.session (c :: cs) = (after (perform c) m).session cs := rfl
    rw [hsession]
    unfold after
    rw [List.cons_append, transcript, transcript]
    cases perform c m with
    | ok r n => exact congrArg _ (ih n)
    | error e n => exact congrArg _ (ih n)

/-- The replies alone, with nothing in the place of a failure. -/
def replies (m : Machine) (cs : List Command) : List (Option Reply) :=
  (m.transcript cs).map fun p => p.1.toOption

theorem perform_of_replies {d : Command} {cs : List Command} {r : Reply}
    {rs : List (Option Reply)} (h : m.replies (d :: cs) = some r :: rs) :
    ∃ n, perform d m = .ok r n ∧ n.replies cs = rs := by
  unfold replies transcript at h
  cases hp : perform d m with
  | ok q n =>
    rw [hp] at h
    obtain ⟨hq, hrest⟩ := List.cons.inj h
    cases hq
    exact ⟨n, rfl, hrest⟩
  | error e n =>
    rw [hp] at h
    cases (List.cons.inj h).1

theorem transcript_reset (h : reset m = .ok () m') (ds : List Command) :
    m.transcript (.reset :: ds) = (.ok .done, m') :: m'.transcript ds := by
  have hperform : perform .reset m = .ok .done m' := bind_eq_ok_iff.2 ⟨(), m', h, rfl⟩
  rw [transcript, hperform]

/-- A reset is a new start that keeps memory. After any session with a machine that was created
with a seed, a reset succeeds and leaves the machine as it was created, random bytes included, but
for what memory holds around the font and for the trace switch. So whatever is asked of it then is
answered, and changes it, as if it were that new machine with the switch set in the same way; and
a second reset does nothing. -/
theorem reset_session {s : Int} {fresh : Machine} (hseed : c.seed = some s)
    (h : create room c = .ok fresh) (cs : List Command) :
    ∃ m', reset (fresh.session cs) = .ok () m' ∧
      m' = { fresh.holding (fresh.session cs) with tracing := (fresh.session cs).tracing } ∧
      m'.random = .seeded s ∧
      (∀ ds, fresh.transcript (cs ++ .reset :: ds) =
        fresh.transcript cs ++ (.ok .done, m') ::
          ((fresh.holding (fresh.session cs)).session
            [.setTracing (fresh.session cs).tracing]).transcript ds) ∧
      reset m' = .ok () m' := by
  have hfresh := reset_of_create h
  -- No command has changed the build, so this reset leads where one of `fresh` itself does.
  have hreset := reset_of_sameBuild (commandClosed_sameBuild.session fresh cs) hfresh
  refine ⟨_, hreset, rfl, ?_, fun ds => ?_, reset_of_reset hreset⟩
  · obtain ⟨-, hrenewed⟩ := reset_eq_ok_iff.1 hfresh
    have hrandom : fresh.random = randomFor fresh.config := by
      rw [hrenewed]
      rfl
    show fresh.random = .seeded s
    rw [hrandom, config_of_create h]
    unfold randomFor
    rw [hseed, Option.getD_some]
  · rw [transcript_append, transcript_reset hreset]
    rfl

/-- A memory with little more than the font. -/
def small : Config where
  memorySize := 96
  programStart := 84
  displayWidth := 8
  displayHeight := 1
  seed := some 7

/-- The byte and the switch are kept, and the address on the stack is not. -/
theorem reset_session_small :
    ∃ fresh m', create .unlimited small = .ok fresh ∧
      (fresh.session [.poke 90 5, .setTracing true, .push 1]).stack.depth = 1 ∧
      reset (fresh.session [.poke 90 5, .setTracing true, .push 1]) = .ok () m' ∧
      m'.memory.cell 90 = 5 ∧ m'.tracing = true ∧ m'.stack.depth = 0 ∧ m'.random = .seeded 7 := by
  have hparts : parts .unlimited small = .ok (.zeros 96, .empty 16, .blank 8 1) := rfl
  have hboot : boot (unbooted small (.zeros 96) (.empty 16) (.blank 8 1)) =
      .ok () (unbooted small (.zeros 96) (.empty 16) (.blank 8 1)).booted := by
    refine boot_eq_ok_iff.2 ⟨⟨by decide, ?_⟩, rfl⟩
    show small.fontStart + Font.size ≤ (Memory.zeros 96).size
    rw [Memory.size_zeros]
    decide
  have hcreate : create .unlimited small =
      .ok (unbooted small (.zeros 96) (.empty 16) (.blank 8 1)).booted := by
    unfold create
    simp only [hparts, hboot]
  obtain ⟨m', hreset, hm, hrandom, -⟩ := reset_session (s := 7) rfl hcreate
    [.poke 90 5, .setTracing true, .push 1]
  refine ⟨_, m', hcreate, by decide +kernel, hreset, ?_, ?_, ?_, hrandom⟩
  · rw [hm]
    decide +kernel
  · rw [hm]
    decide +kernel
  · rw [hm]
    rfl

end Machine

end Chip8
