import Chip8.Proofs.Failing
import Chip8.Proofs.Representation
import Chip8.Proofs.Writes

/-!
# Glyphs in memory

A machine is `Fonted` if the rows of every glyph are in memory at the address of its digit, below
the program. Booting makes every machine so, whatever its memory held, and it stays so as long as
no cell of the font is written; a program that is loaded at its start writes none. On such a
machine the instruction that looks a digit up, and then one that draws, draw the glyph.
-/

namespace Chip8

namespace Font

/-- The rows of one digit. -/
def glyph (d : Nat) : List UInt8 :=
  glyphs.getD d []

theorem length_glyph (d : Fin 16) : (glyph d.val).length = glyphRows := by
  revert d
  decide

theorem getD_bytes (d : Fin 16) (j : Fin 5) :
    bytes.getD (glyphRows * d.val + j.val) 0 = (glyph d.val).getD j.val 0 := by
  revert d j
  decide

theorem address_fin (d : Fin 16) (start : Int) :
    address d.val start = .ok (start + glyphRows * d.val) := by
  unfold address
  rw [if_pos ⟨by omega, by omega⟩]

end Font

namespace Machine

variable {room : Room} {c : Config} {m n : Machine}

/-- The cell is one of those that the font takes up. -/
def InFont (c : Config) (k : Nat) : Prop :=
  c.fontStart ≤ k ∧ (k : Int) < c.fontStart + Font.size

/-- Each row of each glyph can be read at its address, below the program. -/
structure Fonted (c : Config) (m : Machine) : Prop where
  config : m.config = c
  size : (m.memory.size : Int) = c.memorySize
  glyph : ∀ (d : Fin 16) (j : Fin 5), ∃ a, Font.address d.val c.fontStart = .ok a ∧
    a + j.val < c.programStart ∧
    m.memory.read8 (a + j.val) = .ok ((Font.glyph d.val).getD j.val 0)

/-! ## Placing the font -/

/-- The place of a row, as the number of a cell. -/
theorem exists_row (ha : c.Accepted) (d : Fin 16) (j : Fin 5) :
    ∃ k : Nat, (k : Int) = c.fontStart + (Font.glyphRows * d.val : Nat) + j.val ∧
      k = c.fontStart.toNat + (Font.glyphRows * d.val + j.val) ∧ InFont c k ∧
      (k : Int) < c.programStart ∧ (k : Int) < c.memorySize := by
  have h0 := ha.font_nonneg
  have hle := ha.font_le
  have hlt := ha.start_lt
  have hrows : Font.glyphRows * d.val + j.val < Font.size := by
    unfold Font.glyphRows Font.size
    omega
  exact ⟨c.fontStart.toNat + (Font.glyphRows * d.val + j.val), by omega, rfl,
    ⟨by omega, by omega⟩, by omega, by omega⟩

theorem fonted_of_cells (ha : c.Accepted) (hconfig : m.config = c)
    (hsize : (m.memory.size : Int) = c.memorySize)
    (hcells : ∀ k < Font.size, m.memory.cell (c.fontStart.toNat + k) = Font.bytes.getD k 0) :
    Fonted c m := by
  refine ⟨hconfig, hsize, fun d j => ?_⟩
  obtain ⟨k, hrow, hk, -, hstart, hin⟩ := exists_row ha d j
  refine ⟨_, Font.address_fin d c.fontStart, ?_, ?_⟩
  · rw [← Int.natCast_mul, ← hrow]
    exact hstart
  · have hrows : Font.glyphRows * d.val + j.val < Font.size := by
      unfold Font.glyphRows Font.size
      omega
    rw [← Int.natCast_mul, ← hrow, Memory.read8_natCast, if_pos (by omega), hk, hcells _ hrows,
      Font.getD_bytes]

/-- What happens outside the font does not matter. -/
theorem Fonted.of_sameCells (ha : c.Accepted) (h : Fonted c m) (hbuild : SameBuild m n)
    (hcells : ∀ k, InFont c k → SameCell k m n) : Fonted c n := by
  refine ⟨hbuild.config.trans h.config, by rw [hbuild.memory, h.size], fun d j => ?_⟩
  obtain ⟨a, haddress, hstart, hread⟩ := h.glyph d j
  obtain ⟨k, hrow, -, hin, -, hlt⟩ := exists_row ha d j
  have hcell : a + j.val = k := by
    rw [Font.address_fin] at haddress
    cases haddress
    rw [hrow, Int.natCast_mul]
  have hsize := h.size
  refine ⟨a, haddress, hstart, ?_⟩
  rw [hcell, Memory.read8_natCast, if_pos (by omega)] at hread
  rw [hcell, Memory.read8_natCast, if_pos (by rw [hbuild.memory]; omega), hcells k hin, hread]

theorem fonted_booted (ha : c.Accepted) (hconfig : m.config = c)
    (hsize : (m.memory.size : Int) = c.memorySize) : m.Bootable ∧ Fonted c m.booted := by
  have h0 := ha.font_nonneg
  have hle := ha.font_le
  have hlt := ha.start_lt
  have hb : m.Bootable := by
    unfold Bootable
    rw [hconfig, hsize]
    exact ⟨h0, by omega⟩
  have hbuild := SameBuild.booted m
  refine ⟨hb, fonted_of_cells ha hconfig (by rw [hbuild.memory, hsize]) fun k hk => ?_⟩
  have hroom := hb.room
  show (m.memory.place m.config.fontStart.toNat Font.bytes).cell (c.fontStart.toNat + k) = _
  rw [← hconfig, Memory.cell_place _ _ _ _ hroom, Font.length_bytes, if_pos ⟨by omega, by omega⟩,
    Nat.add_sub_cancel_left]

theorem fonted_boot (ha : c.Accepted) (hconfig : m.config = c)
    (hsize : (m.memory.size : Int) = c.memorySize) : ∃ n, boot m = .ok () n ∧ Fonted c n := by
  obtain ⟨hb, hfont⟩ := fonted_booted ha hconfig hsize
  exact ⟨m.booted, boot_eq_ok_iff.2 ⟨hb, rfl⟩, hfont⟩

theorem fonted_reset (ha : c.Accepted) (hconfig : m.config = c)
    (hsize : (m.memory.size : Int) = c.memorySize) : ∃ n, reset m = .ok () n ∧ Fonted c n := by
  obtain ⟨hb, hfont⟩ := fonted_booted ha hconfig hsize
  exact ⟨m.renewed, reset_eq_ok_iff.2 ⟨hb, rfl⟩, hfont.config, hfont.size, hfont.glyph⟩

theorem fonted_of_create (ha : c.Accepted) (h : create room c = .ok m) : Fonted c m := by
  obtain ⟨screen, -, hboot⟩ := exists_boot_of_create h
  have hsize : ((Memory.zeros c.memorySize.toNat).size : Int) = c.memorySize := by
    rw [Memory.size_zeros, Int.toNat_of_nonneg ha.memorySize_nonneg]
  obtain ⟨n, hn, hfont⟩ := fonted_boot ha
    (m := unbooted c (.zeros c.memorySize.toNat) (.empty c.stackDepth) screen) rfl hsize
  rw [hboot] at hn
  cases hn
  exact hfont

/-! ## Keeping it -/

theorem fonted_session (ha : c.Accepted) (h : Fonted c m) {cs : List Command}
    (hcs : ∀ k, InFont c k → ¬ m.WritesAlong k cs) : Fonted c (m.session cs) :=
  h.of_sameCells ha (commandClosed_sameBuild.session m cs) fun k hk => cell_session (hcs k hk)

/-- The command loads an image at the program start. -/
def LoadsProgram (c : Config) (d : Command) : Prop :=
  ∃ image, d = .load image none ∨ d = .load image (some c.programStart)

theorem not_writesAlong_of_loads (ha : c.Accepted) {k : Nat} (hk : InFont c k) {cs : List Command}
    (hcs : ∀ d ∈ cs, LoadsProgram c d) (hconfig : m.config = c) : ¬ m.WritesAlong k cs := by
  induction cs generalizing m with
  | nil => exact id
  | cons d cs ih =>
    have hnext : (after (perform d) m).config = c :=
      (commandClosed_config.perform d m).trans hconfig
    have hrest := ih (fun e he => hcs e (List.mem_cons_of_mem d he)) hnext
    refine not_or.2 ⟨?_, hrest⟩
    have hbelow : ¬ c.programStart ≤ k := by
      have hlt := hk.2
      have hle := ha.font_le
      omega
    have hnone (image : List UInt8) : (Store.load image c.programStart).value? k = none :=
      if_neg hbelow
    obtain ⟨image, rfl | rfl⟩ := hcs d List.mem_cons_self
    · intro hw
      have hvalue : (Store.load image m.config.programStart).value? k ≠ none := hw.2
      rw [hconfig] at hvalue
      exact hvalue (hnone image)
    · intro hw
      exact hw.2 (hnone image)

/-! ## Looking a digit up and drawing it -/

theorem execute_glyph_of_lt {x : Fin 16} (h : (m.registers.v.get x).toNat < 16) :
    execute (.reg .glyph x.val) m = .ok () { m with
      registers := m.registers.setIndex
        (m.config.fontStart + Font.glyphRows * (m.registers.v.get x).toNat) } := by
  have haddress := Font.address_fin ⟨(m.registers.v.get x).toNat, h⟩ m.config.fontStart
  simp only [execute, executeReg, bind_apply, register_fin, get_apply, setGlyph, haddress,
    setIndex_apply]

theorem execute_glyph_of_le {x : Fin 16} (h : 16 ≤ (m.registers.v.get x).toNat) :
    execute (.reg .glyph x.val) m =
      .error (.fault (.invalidSprite (m.registers.v.get x).toNat)) m := by
  have haddress : Font.address (m.registers.v.get x).toNat m.config.fontStart =
      .error (.invalidSprite (m.registers.v.get x).toNat) := by
    unfold Font.address
    rw [if_neg (by omega)]
  simp only [execute, executeReg, bind_apply, register_fin, get_apply, setGlyph, haddress,
    fault_apply]

/-- The rows of a sprite as they are given to the screen. -/
def rowsOf (sprite : List UInt8) : List Int :=
  sprite.map fun b => b.toNat

theorem execute_draw_of_run {a b : Fin 16} {sprite : List UInt8}
    (hroom : m.registers.i.toNat + sprite.length ≤ m.memory.size) (hlen : sprite.length < 16)
    (hrun : m.memory.run m.registers.i.toNat sprite.length = sprite) :
    ∃ s erased, m.screen.draw (m.registers.v.get b).toNat (m.registers.v.get a).toNat
        (rowsOf sprite) = .ok (s, erased) ∧
      execute (.draw a.val b.val sprite.length) m = .ok () { m with
        screen := s
        registers := m.registers.setFlag (if erased then 1 else 0) } := by
  have hrows : m.rowsAtIndex sprite.length = rowsOf sprite := by
    unfold rowsAtIndex rowsOf
    rw [hrun]
  cases hd : m.screen.draw (m.registers.v.get b).toNat (m.registers.v.get a).toNat
      (rowsOf sprite) with
  | error u =>
    have hshort : (rowsOf sprite).length ≤ 15 := by
      unfold rowsOf
      rw [List.length_map]
      omega
    rw [m.screen.draw_eq _ _ hshort] at hd
    cases hd
  | ok p =>
    rw [← hrows] at hd
    exact ⟨p.1, p.2, rfl, execute_draw_fin (n := ⟨sprite.length, hlen⟩) (.inr hroom) hd⟩

/-- The index register reaches every row of the font. -/
theorem Fonted.toNat_index (ha : c.Accepted) (d : Fin 16) :
    (UInt16.ofInt (c.fontStart + Font.glyphRows * d.val)).toNat =
      c.fontStart.toNat + Font.glyphRows * d.val := by
  have h0 := ha.font_nonneg
  have hle := ha.font_le
  have hlt := ha.start_lt
  have hmax := ha.size_le
  unfold Font.size at hle
  unfold Config.maxMemory at hmax
  unfold Font.glyphRows
  have hnonneg : 0 ≤ c.fontStart + ((5 : Nat) : Int) * d.val := by omega
  have hsmall : c.fontStart + ((5 : Nat) : Int) * d.val < 65536 := by omega
  rw [Word.toNat_ofInt, Int.emod_eq_of_lt hnonneg hsmall]
  omega

theorem Fonted.cell (ha : c.Accepted) (h : Fonted c m) (d : Fin 16) (j : Fin 5) :
    m.memory.cell (c.fontStart.toNat + (Font.glyphRows * d.val + j.val)) =
      (Font.glyph d.val).getD j.val 0 := by
  obtain ⟨k, hrow, hk, -, -, hlt⟩ := exists_row ha d j
  obtain ⟨a, haddress, -, hread⟩ := h.glyph d j
  rw [Font.address_fin] at haddress
  cases haddress
  have hsize := h.size
  rw [← Int.natCast_mul, ← hrow, Memory.read8_natCast, if_pos (by omega)] at hread
  rw [← hk]
  exact Except.ok.inj hread

theorem Fonted.run (ha : c.Accepted) (h : Fonted c m) (d : Fin 16) :
    m.memory.run (c.fontStart.toNat + Font.glyphRows * d.val) Font.glyphRows =
      Font.glyph d.val := by
  have hlen : (m.memory.run (c.fontStart.toNat + Font.glyphRows * d.val) Font.glyphRows).length =
      Font.glyphRows := by
    unfold Memory.run
    rw [List.length_map, List.length_range']
  apply List.ext_getElem
  · rw [hlen, Font.length_glyph]
  · intro j hj hj'
    rw [hlen] at hj
    have hcell := h.cell ha d ⟨j, hj⟩
    rw [List.getD_eq_getElem _ _ hj'] at hcell
    rw [← hcell, ← Nat.add_assoc]
    simp [Memory.run]

/-- A digit in any register is looked up and drawn at the row and the column that two registers
say; what is no digit is refused, and nothing changes. -/
structure DrawsGlyphs (m : Machine) : Prop where
  drawn : ∀ x a b : Fin 16, (m.registers.v.get x).toNat < 16 → ∃ s erased,
    (do execute (.reg .glyph x.val); execute (.draw a.val b.val 5) : Action Unit) m =
      .ok () { m with
        screen := s
        registers := (m.registers.setIndex (m.config.fontStart +
          Font.glyphRows * (m.registers.v.get x).toNat)).setFlag (if erased then 1 else 0) } ∧
    m.screen.draw (m.registers.v.get b).toNat (m.registers.v.get a).toNat
      (rowsOf (Font.glyph (m.registers.v.get x).toNat)) = .ok (s, erased) ∧
    ∀ r c, s.pixel r c = (m.screen.pixel r c ^^ decide (Odd (m.screen.covering
      (m.registers.v.get b).toNat (m.registers.v.get a).toNat
      (rowsOf (Font.glyph (m.registers.v.get x).toNat)) r c).card))
  refused : ∀ x : Fin 16, 15 < (m.registers.v.get x).toNat → execute (.reg .glyph x.val) m =
    .error (.fault (.invalidSprite (m.registers.v.get x).toNat)) m

theorem Fonted.drawsGlyphs (ha : c.Accepted) (h : Fonted c m) : DrawsGlyphs m := by
  refine ⟨fun x a b hx => ?_, fun x hx => execute_glyph_of_le hx⟩
  let d : Fin 16 := ⟨(m.registers.v.get x).toNat, hx⟩
  let found : Machine := { m with
    registers := m.registers.setIndex (m.config.fontStart + Font.glyphRows * d.val) }
  have hlook : execute (.reg .glyph x.val) m = .ok () found := execute_glyph_of_lt hx
  have hindex : found.registers.i.toNat = c.fontStart.toNat + Font.glyphRows * d.val := by
    rw [← Fonted.toNat_index ha d, ← h.config]
    rfl
  have hlen : (Font.glyph d.val).length = 5 := Font.length_glyph d
  have hrun : found.memory.run found.registers.i.toNat (Font.glyph d.val).length =
      Font.glyph d.val := by
    rw [hindex, hlen]
    exact h.run ha d
  have hroom : found.registers.i.toNat + (Font.glyph d.val).length ≤ found.memory.size := by
    obtain ⟨k, -, hk, -, -, hlt⟩ := exists_row ha d 4
    have hsize : (found.memory.size : Int) = c.memorySize := h.size
    have hfour : (4 : Fin 5).val = 4 := rfl
    rw [hindex, hlen]
    omega
  obtain ⟨s, erased, hdraw, hexecute⟩ :=
    execute_draw_of_run (a := a) (b := b) hroom (by rw [hlen]; decide) hrun
  rw [hlen] at hexecute
  refine ⟨s, erased, ?_, hdraw, Screen.pixel_draw hdraw⟩
  rw [bind_apply, hlook]
  exact hexecute

/-! ## From the start -/

theorem fonted_of_restart {fresh : Machine} {before : List Command} (ha : c.Accepted)
    (h : create room c = .ok fresh)
    (hbefore : before = [] ∨ ∃ ds, before = ds ++ [.boot] ∨ before = ds ++ [.reset]) :
    Fonted c (fresh.session before) := by
  have hfresh := fonted_of_create ha h
  have hbuild (ds : List Command) := commandClosed_sameBuild.session fresh ds
  have hconfig (ds : List Command) : (fresh.session ds).config = c :=
    (hbuild ds).config.trans hfresh.config
  have hsize (ds : List Command) : ((fresh.session ds).memory.size : Int) = c.memorySize := by
    rw [(hbuild ds).memory, hfresh.size]
  rcases hbefore with rfl | ⟨ds, rfl | rfl⟩
  · exact hfresh
  · obtain ⟨n, hn, hfont⟩ := fonted_boot ha (hconfig ds) (hsize ds)
    have hafter : after (perform .boot) (fresh.session ds) = n :=
      (after_bind_pure boot _ _).trans (after_of_ok hn)
    rw [session_append]
    show Fonted c (after (perform .boot) (fresh.session ds))
    rw [hafter]
    exact hfont
  · obtain ⟨n, hn, hfont⟩ := fonted_reset ha (hconfig ds) (hsize ds)
    have hafter : after (perform .reset) (fresh.session ds) = n :=
      (after_bind_pure reset _ _).trans (after_of_ok hn)
    rw [session_append]
    show Fonted c (after (perform .reset) (fresh.session ds))
    rw [hafter]
    exact hfont

/-- Where the font is placed and where its glyphs are looked up agree, whatever the settings. A
machine of these settings is fonted once it is booted or reset, whatever its memory held. Let a
session have just started or end with a boot or a reset, however it went before, and go on without
writing a cell of the font. Then the machine is fonted, also after any images are loaded at the
program start, and digits are drawn as their glyphs. -/
theorem addressed_glyphs_drawn {fresh : Machine} (hc : c.rejection? = none)
    (h : create room c = .ok fresh) :
    (∀ m : Machine, m.config = c → (m.memory.size : Int) = c.memorySize →
      (∃ n, boot m = .ok () n ∧ Fonted c n) ∧ ∃ n, reset m = .ok () n ∧ Fonted c n) ∧
    ∀ before cs, (before = [] ∨ ∃ ds, before = ds ++ [.boot] ∨ before = ds ++ [.reset]) →
      (∀ k, InFont c k → ¬ (fresh.session before).WritesAlong k cs) →
      (∀ loads, (∀ d ∈ loads, LoadsProgram c d) →
        Fonted c (fresh.session (before ++ cs ++ loads))) ∧
      DrawsGlyphs (fresh.session (before ++ cs)) := by
  have ha := Config.rejection?_eq_none_iff.1 hc
  refine ⟨fun m hconfig hsize => ⟨fonted_boot ha hconfig hsize, fonted_reset ha hconfig hsize⟩,
    fun before cs hbefore hcs => ?_⟩
  have hfont : Fonted c (fresh.session (before ++ cs)) := by
    rw [session_append]
    exact fonted_session ha (fonted_of_restart ha h hbefore) hcs
  refine ⟨fun loads hloads => ?_, hfont.drawsGlyphs ha⟩
  rw [session_append]
  exact fonted_session ha hfont fun k hk => not_writesAlong_of_loads ha hk hloads hfont.config

/-- The font is spoilt and then restored by the boot, and the store behind it spares it. -/
theorem addressed_glyphs_drawn_restored :
    ∃ fresh n, create .unlimited small = .ok fresh ∧
      (do execute (.reg .glyph 2); execute (.draw 3 3 5) : Action Unit)
        (fresh.session ([.poke 7 0, .boot] ++ [.poke 81 1, .setRegister 2 1])) = .ok () n ∧
      n.screen = .mk 8 1 #[0x30] := by
  obtain ⟨fresh, hcreate, hcheck⟩ := exists_create .unlimited small (fun m => decide
    ((m.session ([.poke 7 0, .boot] ++ [.poke 81 1, .setRegister 2 1])).registers.v.get 2 = 1 ∧
      (m.session ([.poke 7 0, .boot] ++ [.poke 81 1, .setRegister 2 1])).registers.v.get 3 = 0 ∧
      (m.session ([.poke 7 0, .boot] ++ [.poke 81 1, .setRegister 2 1])).screen = .blank 8 1))
    (by decide +kernel)
  obtain ⟨hdigit, hzero, hblank⟩ := of_decide_eq_true hcheck
  have hspared : ∀ k, InFont small k →
      ¬ (fresh.session [.poke 7 0, .boot]).WritesAlong k [.poke 81 1, .setRegister 2 1] := by
    rintro k ⟨-, hlt⟩ (⟨-, hvalue⟩ | ⟨s, hs, -⟩ | hnone)
    · have hne : (k : Int) ≠ 81 := by
        intro heq
        rw [heq] at hlt
        exact absurd hlt (by decide)
      exact hvalue (if_neg hne)
    · cases hs
    · exact hnone
  have hdraws := ((addressed_glyphs_drawn rfl hcreate).2 [.poke 7 0, .boot]
    [.poke 81 1, .setRegister 2 1] (.inr ⟨[.poke 7 0], .inl rfl⟩) hspared).2
  obtain ⟨s, erased, hrun, hdraw, -⟩ := hdraws.drawn 2 3 3 (by rw [hdigit]; decide)
  rw [hdigit, hzero, hblank] at hdraw
  have hscreen : (Screen.blank 8 1).draw 0 0 (rowsOf (Font.glyph 1)) =
      .ok (.mk 8 1 #[0x30], true) := rfl
  refine ⟨fresh, _, hcreate, hrun, ?_⟩
  have heq : (s, erased) = (.mk 8 1 #[0x30], true) :=
    Except.ok.inj (hdraw.symm.trans hscreen)
  exact congrArg Prod.fst heq

end Machine

end Chip8
