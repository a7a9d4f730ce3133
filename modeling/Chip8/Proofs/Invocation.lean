import Chip8.Proofs.Session
import Chip8.Proofs.Stages
import Chip8.Proofs.Stores
import Chip8.Proofs.Tracing

/-!
# What a command line comes to

A plain command line ends with an exit status, unless the host has no name for the image or no room
for it or for the machine (`Escapes`). The status is 2 if the rates are refused, the image cannot be
read or is too long, and otherwise 0 or 1, by the reason for which the run stops
(`exists_concludes`). Of two command lines with the same seed that differ in what is told and how,
both come to the same (`invocation_outcome`), since no run sees whether it is traced.
-/

namespace Chip8.CommandLine

variable {σ : Type}

/-! ## Plain command lines -/

/-- A command line that asks for a run against no clock, with no log file, and in which every option
that needs a value has one. -/
structure Plain (argv : List String) (o : Options) : Prop where
  parsed : parse argv = .ok o
  realtime : o.realtime = false
  logFile : o.logFile = none
  emptied : o.emptied = []
  rom : '\x00' ∉ o.rom.toList

theorem Plain.filled {argv : List String} {o : Options} (h : Plain argv o) (s : Setting) :
    s ∉ o.emptied := by
  rw [h.emptied]
  exact List.not_mem_nil

/-- No run takes place: the settings are refused, or the image is refused by the system or has no
room in memory. -/
def Refused (c : Config) (file : Except Unread (List UInt8)) : Prop :=
  c.rejection? ≠ none ∨ (∃ e, file = .error (.refused e)) ∨
    ∃ image, file = .ok image ∧ c.memorySize - c.programStart < image.length

/-- The settings are accepted, but what comes next ends the program: a machine that cannot be made, or
a file that is not to be read for another reason than a refusal of the system. -/
inductive Escapes (host : Host (StateM σ)) (V : View σ) (o : Options) (t : σ) : Abort → Prop
  | machine {e : Failure} (accepted : (o.config (host.entropy.run t).1).rejection? = none)
      (failed : Machine.create host.room (o.config (host.entropy.run t).1) = .error e) :
      Escapes host V o t (.failure e)
  | file {m : Machine} {u : Unread} {a : Abort}
      (accepted : (o.config (host.entropy.run t).1).rejection? = none)
      (created : Machine.create host.room (o.config (host.entropy.run t).1) = .ok m)
      (unread : V.files t (.ofString o.rom) = .error u) (abort : u.abort? = some a) :
      Escapes host V o t a

/-- The run that the options ask for, of an image, stops for that reason in that machine. -/
def Options.Ran (o : Options) (room : Room) (entropy : Int) (image : List UInt8)
    (reason : StopReason) (m : Machine) : Prop :=
  ∃ m₀ m₁, Machine.create room (o.config entropy) = .ok m₀ ∧
    Machine.load image none m₀ = .ok () m₁ ∧
    Machine.run o.steps none (m₁.session o.setup) = .ok reason m

/-! ## Machines for the options -/

section

variable {room : Room} {c : Config} {m : Machine} {image : List UInt8}

theorem load_of_room (hs : m.Sound c) (ha : c.Accepted)
    (h : image.length ≤ c.memorySize - c.programStart) :
    ∃ mem, Machine.load image none m = .ok () { m with memory := mem } := by
  have hfits : (Store.load image c.programStart).Fits m.memory.size := by
    have hfont := ha.font_nonneg
    have hstart := ha.font_le
    refine .inr ⟨?_, ?_⟩
    · unfold Font.size at hstart
      omega
    · rw [hs.memory]
      omega
  unfold Machine.load
  rw [Option.getD_none, hs.config, Memory.load_of_fits hfits]
  exact ⟨_, rfl⟩

theorem load_of_no_room (hs : m.Sound c) (ha : c.Accepted)
    (h : c.memorySize - c.programStart < image.length) :
    ∃ e, Machine.load image none m = .error e m := by
  have hunfit : ¬ (Store.load image c.programStart).Fits m.memory.size := by
    have hstart := ha.start_lt
    rintro (rfl | ⟨-, hle⟩)
    · rw [List.length_nil] at h
      omega
    · rw [hs.memory] at hle
      omega
  unfold Machine.load
  rw [Option.getD_none, hs.config, Memory.load_of_not_fits hunfit]
  exact ⟨_, rfl⟩

/-- The options leave the sizes as they are. -/
theorem displayable_config (o : Options) (entropy : Int) : (o.config entropy).Displayable :=
  have hd : Config.Displayable {} := ⟨by decide, by decide, by decide⟩
  ⟨hd.width_pos, hd.aligned, hd.height_pos⟩

/-- A host that can hold the usual machine can make every one that the options ask for. -/
theorem create_config (hh : Config.Holdable room {}) (o : Options) (entropy : Int)
    (h : (o.config entropy).rejection? = none) :
    ∃ m, Machine.create room (o.config entropy) = .ok m ∧ m.Sound (o.config entropy) :=
  Machine.create_of_holdable (Config.rejection?_eq_none_iff.1 h) (displayable_config o entropy)
    ⟨hh.memory, hh.stack, hh.stride_isWord, hh.rows⟩

theorem exists_ran {o : Options} {entropy : Int}
    (hm : Machine.create room (o.config entropy) = .ok m)
    (h : ¬ Refused (o.config entropy) (.ok image)) :
    ∃ reason n, o.Ran room entropy image reason n := by
  obtain ⟨hc, h⟩ := not_or.1 h
  have ha := Config.rejection?_eq_none_iff.1 (Decidable.not_not.1 hc)
  have hroom := fun hlong => h (.inr ⟨image, rfl, hlong⟩)
  have hs := Machine.sound_of_create ha (displayable_config o entropy) hm
  obtain ⟨mem, hload⟩ := load_of_room hs ha (Int.not_lt.1 hroom)
  have hcadence : (({ m with memory := mem } : Machine).session o.setup).config.cadence ≠ 0 := by
    rw [Machine.commandClosed_config.session _ o.setup]
    show m.config.cadence ≠ 0
    rw [hs.config]
    exact Int.ne_of_gt ha.cadence_pos
  obtain ⟨reason, n, hrun⟩ := Machine.run_ok hcadence o.steps
  exact ⟨reason, n, m, _, hm, hload, hrun⟩

end

/-! ## One invocation -/

section

variable {host : Host (StateM σ)} {V : View σ} {argv : List String} {o : Options} {t : σ}
  {image : List UInt8}

theorem run_of_parsed (h : parse argv = .ok o) : run host argv = runOptions host o := by
  unfold run
  rw [h]

/-- Nothing escapes on such a host if the bytes of the image are to be had. -/
theorem not_escapes (hh : Config.Holdable host.room {})
    (hfile : V.files t (.ofString o.rom) = .ok image) (a : Abort) : ¬ Escapes host V o t a := by
  rintro (⟨hc, hfailed⟩ | ⟨-, -, hunread, -⟩)
  · obtain ⟨m, hm, -⟩ := create_config hh o _ hc
    rw [hfailed] at hm
    cases hm
  · rw [hfile] at hunread
    cases hunread

/-- Where something escapes, this is how a plain command line ends. -/
theorem prints_of_escapes (hV : host.Serves V) (h : Plain argv o) (t : σ) {a : Abort}
    (ha : Escapes host V o t a) :
    V.Prints (run host argv) t (.error a) "" := by
  rw [run_of_parsed h.parsed]
  cases ha with
  | machine hc hm =>
    exact hV.prints_runOptions_of_failed h.logFile (lacksRate_of_filled h.emptied) hc
      (h.filled _) hm
  | file hc hm hread habort =>
    exact hV.prints_runOptions_of_created h.logFile (lacksRate_of_filled h.emptied) hc
      (h.filled _) hm fun ch t' _ ht' =>
        hV.prints_runMachine_of_abort h.rom (ht' ▸ hread) habort _

/-- If nothing escapes, there is a machine for settings that are accepted. -/
theorem exists_created (hstay : ∀ a, ¬ Escapes host V o t a)
    (hc : (o.config (host.entropy.run t).1).rejection? = none) :
    ∃ m, Machine.create host.room (o.config (host.entropy.run t).1) = .ok m := by
  cases hm : Machine.create host.room (o.config (host.entropy.run t).1) with
  | error e => exact absurd (.machine hc hm) (hstay _)
  | ok m => exact ⟨m, rfl⟩

section

variable (hV : host.Serves V) (h : Plain argv o) (hstay : ∀ a, ¬ Escapes host V o t a)

include hV h hstay

/-- A plain command line that is refused ends with 2 and prints nothing. -/
theorem prints_of_refused
    (hno : Refused (o.config (host.entropy.run t).1) (V.files t (.ofString o.rom))) :
    V.Prints (run host argv) t (.ok 2) "" := by
  rw [run_of_parsed h.parsed]
  cases hc : (o.config (host.entropy.run t).1).rejection? with
  | some e => exact hV.prints_runOptions_of_rejected h.logFile (lacksRate_of_filled h.emptied) hc
  | none =>
    obtain ⟨m, hm⟩ := exists_created hstay hc
    have ha := Config.rejection?_eq_none_iff.1 hc
    refine hV.prints_runOptions_of_created h.logFile (lacksRate_of_filled h.emptied) hc
      (h.filled _) hm fun ch t' hch ht' => ?_
    rw [← ht'] at hno
    rcases hno.resolve_left (absurd hc) with ⟨e, hread⟩ | ⟨image, hread, hlong⟩
    · exact hV.prints_runMachine_of_error hch h.rom hread m
    · obtain ⟨e, hload⟩ :=
        load_of_no_room (Machine.sound_of_create ha (displayable_config o _) hm) ha hlong
      exact hV.prints_runMachine_of_refused hch h.rom hread hload

/-- Any other ends as its run does, and prints what there is to report. -/
theorem prints_of_not_refused
    (hyes : ¬ Refused (o.config (host.entropy.run t).1) (V.files t (.ofString o.rom))) :
    ∃ image reason m, V.files t (.ofString o.rom) = .ok image ∧
      o.Ran host.room (host.entropy.run t).1 image reason m ∧
      V.Prints (run host argv) t (.ok (status reason))
        (if o.quiet then "" else report o reason m) := by
  have hc := Decidable.not_not.1 (not_or.1 hyes).1
  obtain ⟨m₀, hm₀⟩ := exists_created hstay hc
  cases hread : V.files t (.ofString o.rom) with
  | error u =>
    cases habort : u.abort? with
    | some a => exact absurd (.file hc hm₀ hread habort) (hstay a)
    | none =>
      obtain ⟨e, rfl⟩ := Unread.abort?_eq_none_iff.1 habort
      exact absurd (.inr (.inl ⟨e, hread⟩)) hyes
  | ok image =>
    rw [hread] at hyes
    obtain ⟨reason, m, hran⟩ := exists_ran hm₀ hyes
    refine ⟨image, reason, m, rfl, hran, ?_⟩
    obtain ⟨m₀, m₁, hm₀, hload, hrun⟩ := hran
    rw [run_of_parsed h.parsed]
    refine hV.prints_runOptions_of_created h.logFile (lacksRate_of_filled h.emptied) hc
      (h.filled _) hm₀ fun ch t' hch ht' => ?_
    refine hV.prints_runMachine_of_loaded hch h.rom (ht' ▸ hread) hload (h.filled _) fun t'' => ?_
    refine .after (hV.prints_execute hch h.realtime (h.filled _) _ t'') fun t₃ _ => ?_
    rw [hrun]
    exact hV.prints_finish h.emptied reason m t₃

end

end

/-! ## The exit status -/

theorem status_ne_two (reason : StopReason) : status reason ≠ 2 := by
  cases reason <;> decide

theorem status_eq_one_iff {reason : StopReason} :
    status reason = 1 ↔ reason = .illegal ∨ reason = .error := by
  cases reason <;> decide

theorem status_eq_zero_iff {reason : StopReason} :
    status reason = 0 ↔ reason = .timeout ∨ reason = .breakpoint := by
  cases reason <;> decide

theorem eq_status {code : UInt32} {reason : StopReason}
    (hone : code = 1 ↔ reason = .illegal ∨ reason = .error)
    (hzero : code = 0 ↔ reason = .timeout ∨ reason = .breakpoint) : code = status reason := by
  cases reason with
  | timeout | breakpoint => exact hzero.2 (by decide)
  | illegal | error => exact hone.2 (by decide)

/-! ## Two invocations -/

/-- The same but for the trace, the characters of the picture and how much is told. -/
def Options.SameRun (o o' : Options) : Prop :=
  { o' with
    trace := o.trace
    on := o.on
    off := o.off
    verbosity := o.verbosity
    quiet := o.quiet } = o

/-- The last thing that is set up is the trace. -/
theorem Options.session_setup_eq (o : Options) (m : Machine) :
    m.session o.setup = { m.session (o.key.toList.map (fun k => .press (some k)) ++
      o.breakpoints.map .addBreakpoint) with tracing := o.trace } :=
  Machine.session_append m _ _

namespace Options.SameRun

variable {o o' : Options} (h : o.SameRun o')

include h

/-- With a seed the entropy does not matter. -/
theorem config_eq (hseed : o.seed ≠ none) (e e' : Int) : o'.config e' = o.config e := by
  rw [← h] at hseed ⊢
  obtain ⟨seed, hsome⟩ := Option.ne_none_iff_exists'.1 hseed
  simp only at hsome
  simp only [config, hsome, Option.getD_some]

theorem session_setup (m : Machine) : (m.session o.setup).Retraced (m.session o'.setup) := by
  have hkey : o'.key = o.key := by rw [← h]
  have hbreaks : o'.breakpoints = o.breakpoints := by rw [← h]
  rw [session_setup_eq, session_setup_eq, hkey, hbreaks]
  exact .setTracing _ _ _

/-- Both runs stop for the same reason, in machines that differ at most in the trace. -/
theorem ran (hseed : o.seed ≠ none) {room room' : Room} {e e' : Int} {image : List UInt8}
    {reason reason' : StopReason} {m m' : Machine} (hr : o.Ran room e image reason m)
    (hr' : o'.Ran room' e' image reason' m') :
    reason' = reason ∧ m.Retraced m' := by
  obtain ⟨m₀, m₁, hm₀, hload, hrun⟩ := hr
  obtain ⟨n₀, n₁, hn₀, hload', hrun'⟩ := hr'
  have hsteps : o'.steps = o.steps := by rw [← h]
  rw [h.config_eq hseed e e'] at hn₀
  obtain rfl := Machine.eq_of_create hm₀ hn₀
  rw [hload] at hload'
  cases hload'
  have hsame := Machine.run_retraced o.steps none _ _ (h.session_setup m₁)
  rw [hrun, ← hsteps, hrun'] at hsame
  rcases hsame with ⟨x, n, n', hn, hn', hret⟩ | ⟨x, n, n', hn, -, -⟩
  · cases hn
    cases hn'
    exact ⟨rfl, hret⟩
  · cases hn

end Options.SameRun

/-! ## The outcome of an invocation -/

/-- How an invocation with the options `o` ends: with 2 and nothing printed if no run takes place,
and otherwise with what its run says and a report on it. -/
structure Concludes (host : Host (StateM σ)) (V : View σ) (o : Options) (t : σ) (code : UInt32)
    (t' : σ) : Prop where
  refused_iff : code = 2 ↔
    Refused (o.config (host.entropy.run t).1) (V.files t (.ofString o.rom))
  silent : code = 2 → V.printed t' = V.printed t
  ran : code ≠ 2 → ∃ image reason m, V.files t (.ofString o.rom) = .ok image ∧
    o.Ran host.room (host.entropy.run t).1 image reason m ∧
    (code = 1 ↔ reason = .illegal ∨ reason = .error) ∧
    (code = 0 ↔ reason = .timeout ∨ reason = .breakpoint) ∧
    V.printed t' = V.printed t ++ if o.quiet then "" else report o reason m

theorem exists_concludes {host : Host (StateM σ)} {V : View σ} (hV : host.Serves V)
    {argv : List String} {o : Options} (h : Plain argv o) {t : σ}
    (hstay : ∀ a, ¬ Escapes host V o t a) :
    ∃ code t', (run host argv).run.run t = (.ok code, t') ∧ Concludes host V o t code t' := by
  by_cases hno : Refused (o.config (host.entropy.run t).1) (V.files t (.ofString o.rom))
  · obtain ⟨t', hrun, -, hprinted⟩ := prints_of_refused hV h hstay hno
    refine ⟨2, t', hrun, ⟨fun _ => hno, fun _ => rfl⟩, fun _ => ?_, fun hne => absurd rfl hne⟩
    rw [hprinted, String.append_empty]
  · obtain ⟨image, reason, m, hread, hran, t', hrun, -, hprinted⟩ :=
      prints_of_not_refused hV h hstay hno
    refine ⟨status reason, t', hrun, ?_, fun htwo => absurd htwo (status_ne_two reason),
      fun _ => ⟨image, reason, m, hread, hran, status_eq_one_iff, status_eq_zero_iff, hprinted⟩⟩
    exact ⟨fun htwo => absurd htwo (status_ne_two reason), fun h => absurd h hno⟩

/-- A plain command line ends with an exit status unless something escapes, which ends it then. The
status is 2 if and only if no run takes place, and otherwise 1 if the run is stopped by a fault and
0 if not. Let a second command line, perhaps on another host, name a file with the same content and
the same seed, and differ from the first only in the trace, the characters of the picture and how
much is told. Then it ends with the same status, and if both report on a run, the registers and the
reason to stop are the same. -/
theorem invocation_outcome {host : Host (StateM σ)} {V : View σ} (hV : host.Serves V)
    {argv : List String} {o : Options} (h : Plain argv o) (t : σ) :
    (∀ a, Escapes host V o t a → ∃ t', (run host argv).run.run t = (.error a, t')) ∧
    ((∀ a, ¬ Escapes host V o t a) →
      ∃ code t', (run host argv).run.run t = (.ok code, t') ∧ Concludes host V o t code t' ∧
        ∀ {τ : Type} {host' : Host (StateM τ)} {W : View τ} (argv' : List String) (o' : Options)
          (u : τ), host'.Serves W → Plain argv' o' → o.SameRun o' → o.seed ≠ none →
          W.files u (.ofString o'.rom) = V.files t (.ofString o.rom) →
          (∀ a, ¬ Escapes host' W o' u a) →
          ∃ u', (run host' argv').run.run u = (.ok code, u') ∧
            (o.quiet = false → o'.quiet = false →
              (code = 2 ∧ V.printed t' = V.printed t ∧ W.printed u' = W.printed u) ∨
              ∃ reason m m', V.printed t' = V.printed t ++ report o reason m ∧
                W.printed u' = W.printed u ++ report o' reason m' ∧
                m'.registers.text = m.registers.text ∧
                stopText reason m' = stopText reason m)) := by
  refine ⟨fun a ha => ?_, fun hstay => ?_⟩
  · obtain ⟨t', hrun, -⟩ := prints_of_escapes hV h t ha
    exact ⟨t', hrun⟩
  obtain ⟨code, t', hrun, hends⟩ := exists_concludes hV h hstay
  refine ⟨code, t', hrun, hends, fun argv' o' u hW h' hsame hseed hfile hstay' => ?_⟩
  obtain ⟨code', u', hrun', hends'⟩ := exists_concludes hW h' hstay'
  have hrefused : code' = 2 ↔ code = 2 := by
    rw [hends.refused_iff, hends'.refused_iff, hfile, hsame.config_eq hseed]
  by_cases htwo : code = 2
  · refine ⟨u', by rw [hrun', hrefused.2 htwo, htwo], fun _ _ => .inl ⟨htwo, ?_, ?_⟩⟩
    · exact hends.silent htwo
    · exact hends'.silent (hrefused.2 htwo)
  · obtain ⟨image, reason, m, hread, hran, hone, hzero, hprinted⟩ := hends.ran htwo
    obtain ⟨image', reason', m', hread', hran', hone', hzero', hprinted'⟩ :=
      hends'.ran fun htwo' => htwo (hrefused.1 htwo')
    rw [hfile, hread] at hread'
    cases hread'
    obtain ⟨rfl, hret⟩ := hsame.ran hseed hran hran'
    refine ⟨u', ?_, fun hquiet hquiet' => .inr ⟨reason', m, m', ?_, ?_, ?_, ?_⟩⟩
    · rw [hrun', eq_status hone' hzero', eq_status hone hzero]
    · rw [hprinted, hquiet]
      rfl
    · rw [hprinted', hquiet']
      rfl
    · rw [hret.registers]
    · unfold stopText
      rw [hret.lastFault]

/-- A host whose names all lead to one file, and whose state is what has been printed. -/
def shelf (file : Except Unread (List UInt8)) : Host (StateM String) where
  room := .unlimited
  read _ := pure file
  makeDirectory _ := pure (.ok ())
  isDirectory _ := pure true
  append _ _ := pure (.ok ())
  workingDirectory := pure ⟨"/", []⟩
  timeStamp := pure ""
  entropy := pure 0
  clock := ⟨pure 0, fun _ => pure ()⟩
  stdout text := modify (· ++ text)
  stderr _ := pure ()
  help := pure ()
  refuse _ := pure ()

theorem shelf_serves (file : Except Unread (List UInt8)) :
    (shelf file).Serves ⟨fun _ _ => file, id⟩ where
  read _ _ := rfl
  read_silent _ := .pure _ _
  entropy_silent := .pure _ _
  stderr_silent _ := .pure _ _
  stdout _ _ := ⟨rfl, rfl⟩

theorem holdable_unlimited : Config.Holdable .unlimited {} :=
  ⟨by decide, by decide, by decide, by decide⟩

/-- With that image the run that the options ask for stops for that reason. -/
def stopsFor (o : Options) (image : List UInt8) (reason : StopReason) (m : Machine) : Bool :=
  match Machine.load image none m with
  | .ok _ m => decide (Machine.reason? (Machine.run o.steps none (m.session o.setup)) = some reason)
  | .error _ _ => false

theorem reason_of_stopsFor {o : Options} {room : Room} {entropy : Int} {image : List UInt8}
    {reason reason' : StopReason} {m : Machine} (hran : o.Ran room entropy image reason' m)
    (h : (Machine.create room (o.config entropy)).toOption.any (stopsFor o image reason) = true) :
    reason' = reason := by
  obtain ⟨m₀, m₁, hm₀, hload, hrun⟩ := hran
  obtain ⟨n, hn, hstops⟩ := Machine.exists_create _ _ _ h
  rw [hm₀] at hn
  cases hn
  rw [stopsFor, hload] at hstops
  have hreason := of_decide_eq_true hstops
  rw [hrun] at hreason
  exact Option.some.inj hreason

def seeded : Options :=
  { rom := "rom.ch8", seed := some 7 }

def seededTraced : Options :=
  { seeded with trace := true, on := "@", verbosity := 1 }

theorem not_refused_seeded : ¬ Refused (seeded.config 0) (.ok [0xFF, 0xFF]) := by
  rintro (hrejected | ⟨e, he⟩ | ⟨image, himage, hlong⟩)
  · exact hrejected (by decide)
  · cases he
  · cases himage
    exact absurd hlong (by decide)

/-- An image that starts with no instruction, with much told and with little; and a host that has no
name for it. -/
theorem invocation_outcome_illegal :
    Plain ["rom.ch8", "--seed", "7"] seeded ∧
      Plain ["-v", "--trace", "rom.ch8", "--seed=7", "--on", "@"] seededTraced ∧
      seeded.SameRun seededTraced ∧
      (∃ t' u',
        (run (shelf (.ok [0xFF, 0xFF])) ["rom.ch8", "--seed", "7"]).run.run "" = (.ok 1, t') ∧
        (run (shelf (.ok [0xFF, 0xFF]))
          ["-v", "--trace", "rom.ch8", "--seed=7", "--on", "@"]).run.run "" = (.ok 1, u')) ∧
      ∃ t', (run (shelf (.error (.unencodable "surrogates not allowed")))
        ["rom.ch8", "--seed", "7"]).run.run "" =
          (.error (.pathUnencodable "surrogates not allowed"), t') := by
  have h : Plain ["rom.ch8", "--seed", "7"] seeded := ⟨rfl, rfl, rfl, rfl, by decide⟩
  have h' : Plain ["-v", "--trace", "rom.ch8", "--seed=7", "--on", "@"] seededTraced :=
    ⟨rfl, rfl, rfl, rfl, by decide⟩
  refine ⟨h, h', rfl, ?_, ?_⟩
  · have hserves := shelf_serves (.ok [0xFF, 0xFF])
    obtain ⟨code, t', hrun, hends, hsecond⟩ := (invocation_outcome hserves h "").2
      (not_escapes holdable_unlimited rfl)
    obtain ⟨u', hrun', -⟩ := hsecond _ _ "" hserves h' rfl (Option.some_ne_none 7) rfl
      (not_escapes holdable_unlimited rfl)
    have hcode : code = 1 := by
      obtain ⟨image, reason, m, hread, hran, hone, -, -⟩ :=
        hends.ran fun htwo => not_refused_seeded (hends.refused_iff.1 htwo)
      cases hread
      exact hone.2 (.inl (reason_of_stopsFor hran (by decide +kernel)))
    subst hcode
    exact ⟨t', u', hrun, hrun'⟩
  · obtain ⟨m, hm, -⟩ := create_config holdable_unlimited seeded 0 (by decide)
    exact (invocation_outcome (shelf_serves _) h "").1 _ (.file (by decide) hm rfl rfl)

/-- Without a count there is nothing to run, which is found out when the run is to start. -/
theorem prints_execute_of_missing {host : Host (StateM σ)} {V : View σ} {ch : Channels}
    {o : Options} (hreal : o.realtime = false) (ho : .steps ∈ o.emptied) (m : Machine) (t : σ) :
    V.Prints (execute host ch o m) t (.error .countMissing) "" := by
  unfold execute
  rw [hreal, if_pos ho]
  exact .bind_error (.throw _ t)

/-- An option can be left without its value by a pair of dashes. -/
theorem missing_count_escapes :
    parse ["rom.ch8", "--steps=--", "-q"] =
        .ok { rom := "rom.ch8", quiet := true, emptied := [.steps] } ∧
      ∃ t', (run (shelf (.ok [0x12, 0x00])) ["rom.ch8", "--steps=--", "-q"]).run.run "" =
        (.error .countMissing, t') := by
  have hparse : parse ["rom.ch8", "--steps=--", "-q"] =
      .ok { rom := "rom.ch8", quiet := true, emptied := [.steps] } := rfl
  have hserves := shelf_serves (.ok [0x12, 0x00])
  refine ⟨hparse, ?_⟩
  rw [run_of_parsed hparse]
  obtain ⟨m, hm, hs⟩ := create_config holdable_unlimited
    { rom := "rom.ch8", quiet := true, emptied := [.steps] } 0 (by decide)
  obtain ⟨mem, hload⟩ := @load_of_room _ _ [0x12, 0x00] hs
    (Config.rejection?_eq_none_iff.1 (by decide)) (by decide)
  obtain ⟨t', hrun, -⟩ := hserves.prints_runOptions_of_created (t := "") rfl (by decide) (by decide)
    (by decide) hm fun ch t' hch _ =>
      hserves.prints_runMachine_of_loaded hch (by decide) rfl hload (by decide) fun t'' =>
        .bind_error (prints_execute_of_missing rfl (by decide) _ t'')
  exact ⟨t', hrun⟩

end Chip8.CommandLine
