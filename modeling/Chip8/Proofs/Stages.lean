import Chip8.CommandLine.Program

/-!
# Stages of the program

The program runs over any host; here the host is a state that shows files, or why they are not to
be read, and takes in what is printed (`Host.Serves`). `View.Prints a t r text` is the specification
of a part `a` of the program started from the state `t`: how it ends, what it prints, and that it
leaves the files as they are. Each stage has one lemma for every way to leave it, with what comes
after it as a hypothesis.
-/

namespace Chip8.CommandLine

variable {σ α β : Type}

/-! ## Looking at a host -/

/-- What matters of a host: what its files hold, and what has been printed. -/
structure View (σ : Type) where
  files : σ → PathName → Except Unread (List UInt8)
  printed : σ → String

namespace View

variable (V : View σ)

/-- Neither touches files nor prints. -/
def Silent (a : StateM σ α) : Prop :=
  ∀ t, V.files (a.run t).2 = V.files t ∧ V.printed (a.run t).2 = V.printed t

theorem Silent.pure (x : α) : V.Silent (pure x) :=
  fun _ => ⟨rfl, rfl⟩

variable {V} in
theorem Silent.bind {a : StateM σ α} {k : α → StateM σ β} (ha : V.Silent a)
    (hk : ∀ x, V.Silent (k x)) : V.Silent (a >>= k) := by
  intro t
  obtain ⟨hf, hp⟩ := hk (a.run t).1 (a.run t).2
  exact ⟨hf.trans (ha t).1, hp.trans (ha t).2⟩

variable {V} in
theorem Silent.forM {f : α → StateM σ PUnit} (hf : ∀ x, V.Silent (f x)) (xs : List α) :
    V.Silent (xs.forM f) := by
  induction xs with
  | nil => exact .pure V _
  | cons x xs ih => exact (hf x).bind fun _ => ih

/-- A program that ends with `r` has printed `text` meanwhile, and the files are as before. -/
def Prints (a : Program (StateM σ) α) (t : σ) (r : Except Abort α) (text : String) : Prop :=
  ∃ t', a.run.run t = (r, t') ∧ V.files t' = V.files t ∧ V.printed t' = V.printed t ++ text

namespace Prints

variable {V} {a : Program (StateM σ) α} {k : α → Program (StateM σ) β} {t : σ} {x : α}
  {r : Except Abort β} {text text' : String}

theorem pure (x : α) (t : σ) : V.Prints (pure x) t (.ok x) "" :=
  ⟨t, rfl, rfl, String.append_empty.symm⟩

theorem throw (e : Abort) (t : σ) : V.Prints (throw e : Program (StateM σ) α) t (.error e) "" :=
  ⟨t, rfl, rfl, String.append_empty.symm⟩

theorem lift {a : StateM σ α} (ha : V.Silent a) (t : σ) :
    V.Prints (ExceptT.lift a) t (.ok (a.run t).1) "" :=
  ⟨(a.run t).2, rfl, (ha t).1, (ha t).2.trans String.append_empty.symm⟩

theorem bind (ha : V.Prints a t (.ok x) text)
    (hk : ∀ t', V.files t' = V.files t → V.Prints (k x) t' r text') :
    V.Prints (a >>= k) t r (text ++ text') := by
  obtain ⟨t₁, hrun, hfiles, hprinted⟩ := ha
  obtain ⟨t₂, hrun', hfiles', hprinted'⟩ := hk t₁ hfiles
  refine ⟨t₂, ?_, hfiles'.trans hfiles, ?_⟩
  · rw [← hrun']
    show (ExceptT.bindCont k (a.run.run t).1).run (a.run.run t).2 = _
    rw [hrun]
    rfl
  · rw [hprinted', hprinted, String.append_assoc]

/-- What is done before printed nothing. -/
theorem after (ha : V.Prints a t (.ok x) "")
    (hk : ∀ t', V.files t' = V.files t → V.Prints (k x) t' r text) :
    V.Prints (a >>= k) t r text := by
  rw [← String.empty_append (s := text)]
  exact ha.bind hk

theorem bind_error {e : Abort} (ha : V.Prints a t (.error e) text) :
    V.Prints (a >>= k) t (.error e) text := by
  obtain ⟨t₁, hrun, hfiles, hprinted⟩ := ha
  refine ⟨t₁, ?_, hfiles, hprinted⟩
  show (ExceptT.bindCont k (a.run.run t).1).run (a.run.run t).2 = _
  rw [hrun]
  rfl

/-- A name without the terminator passes. -/
theorem checkPath {name : String} (h : '\x00' ∉ name.toList) (t : σ) :
    V.Prints (Channels.checkPath (.ofString name)) t (.ok ()) "" := by
  unfold Channels.checkPath
  rw [PathName.hasTerminator_ofString h]
  exact .pure () t

end Prints

end View

/-! ## Options that have their values -/

section

variable {o : Options}

theorem missingPixel?_of_filled (h : o.emptied = []) (s : Screen) : missingPixel? o s = none := by
  simp [missingPixel?, Screen.firstColumn?, h]

theorem lacksRate_of_filled (h : o.emptied = []) : lacksRate o = false := by
  simp [lacksRate, h]

theorem channels_ofOptions (host : Host (StateM σ)) (h : o.logFile = none) :
    Channels.ofOptions host o = pure ⟨o.consoleLevel, none⟩ := by
  unfold Channels.ofOptions Options.logPath?
  rw [h]
  rfl

end

/-! ## Hosts that serve -/

/-- What ends the program when a file is not to be read. There is nothing if the system refuses,
since the program has an answer to that. -/
def Unread.abort? : Unread → Option Abort
  | refused _ => none
  | unencodable reason => some (.pathUnencodable reason)
  | tooLarge => some (.failure (.misuse .outOfMemory))

theorem Unread.abort?_eq_none_iff {u : Unread} : u.abort? = none ↔ ∃ e, u = .refused e := by
  constructor
  · intro h
    cases u with
    | refused e => exact ⟨e, rfl⟩
    | unencodable reason => cases h
    | tooLarge => cases h
  · rintro ⟨e, rfl⟩
    rfl

/-- A host that shows files and takes in what is printed. -/
structure Host.Serves (host : Host (StateM σ)) (V : View σ) : Prop where
  read : ∀ p t, ((host.read p).run t).1 = V.files t p
  read_silent : ∀ p, V.Silent (host.read p)
  entropy_silent : V.Silent host.entropy
  stderr_silent : ∀ text, V.Silent (host.stderr text)
  stdout : ∀ text t, V.files ((host.stdout text).run t).2 = V.files t ∧
    V.printed ((host.stdout text).run t).2 = V.printed t ++ text

namespace Host.Serves

variable {host : Host (StateM σ)} {V : View σ} (hV : host.Serves V) {ch : Channels}

include hV

theorem tell_silent (hch : ch.log? = none) (n : Note) : V.Silent (ch.tell host n) := by
  unfold Channels.tell
  rw [hch]
  by_cases h : n.reaches ch.consoleLevel
  · rw [if_pos h]
    exact (hV.stderr_silent _).bind fun _ => .pure V _
  · rw [if_neg h]
    exact .pure V _

theorem print (text : String) (t : σ) :
    V.Prints (ExceptT.lift (host.stdout text)) t (.ok ()) text :=
  ⟨_, rfl, (hV.stdout text t).1, (hV.stdout text t).2⟩

/-! ## The stages of the program -/

variable {o : Options} {t : σ} {r : Except Abort UInt32} {text : String}

theorem prints_finish (ho : o.emptied = []) (reason : StopReason) (m : Machine) (t : σ) :
    V.Prints (finish host o (.ok reason m)) t (.ok (status reason))
      (if o.quiet then "" else report o reason m) := by
  unfold finish
  cases o.quiet with
  | true => exact .pure _ t
  | false =>
    simp only [missingPixel?_of_filled ho]
    rw [← String.append_empty (s := if false = true then "" else report o reason m)]
    exact .bind (hV.print _ t) fun t' _ => .pure _ t'

theorem prints_execute (hch : ch.log? = none) (hreal : o.realtime = false)
    (ho : .steps ∉ o.emptied) (m : Machine) (t : σ) :
    V.Prints (execute host ch o m) t (.ok (Machine.run o.steps none m)) "" := by
  unfold execute
  rw [hreal, if_neg ho]
  show V.Prints (ExceptT.lift _ >>= fun _ => pure (Machine.run o.steps none m)) t _ _
  exact .after (.lift (.forM (hV.tell_silent hch) (m.journal o.steps none)) t) fun t' _ =>
    .pure _ t'

theorem prints_runMachine_of_error {e : FileError} (hch : ch.log? = none)
    (hrom : '\x00' ∉ o.rom.toList) (hread : V.files t (.ofString o.rom) = .error (.refused e))
    (m : Machine) :
    V.Prints (runMachine host ch o m) t (.ok 2) "" := by
  unfold runMachine
  refine .after (.checkPath hrom t) fun t₁ h₁ => ?_
  refine .after (.lift (hV.read_silent _) t₁) fun t₂ h₂ => ?_
  rw [hV.read, h₁, hread]
  exact .after (.lift (hV.tell_silent hch _) t₂) fun t₃ _ => .pure _ t₃

theorem prints_runMachine_of_abort {u : Unread} {a : Abort} (hrom : '\x00' ∉ o.rom.toList)
    (hread : V.files t (.ofString o.rom) = .error u) (ha : u.abort? = some a) (m : Machine) :
    V.Prints (runMachine host ch o m) t (.error a) "" := by
  unfold runMachine
  refine .after (.checkPath hrom t) fun t₁ h₁ => ?_
  refine .after (.lift (hV.read_silent _) t₁) fun t₂ h₂ => ?_
  rw [hV.read, h₁, hread]
  cases u with
  | refused e => cases ha
  | unencodable reason =>
    cases ha
    exact .throw _ t₂
  | tooLarge =>
    cases ha
    exact .throw _ t₂

theorem prints_runMachine_of_refused {image : List UInt8} {e : Failure} {m m₁ : Machine}
    (hch : ch.log? = none) (hrom : '\x00' ∉ o.rom.toList)
    (hread : V.files t (.ofString o.rom) = .ok image)
    (hload : Machine.load image none m = .error e m₁) :
    V.Prints (runMachine host ch o m) t (.ok 2) "" := by
  unfold runMachine
  refine .after (.checkPath hrom t) fun t₁ h₁ => ?_
  refine .after (.lift (hV.read_silent _) t₁) fun t₂ h₂ => ?_
  rw [hV.read, h₁, hread]
  simp only [hload]
  exact .after (.lift (hV.tell_silent hch _) t₂) fun t₃ _ => .pure _ t₃

/-- Once the image is loaded, all is left to the run. -/
theorem prints_runMachine_of_loaded {image : List UInt8} {m m₁ : Machine}
    (hch : ch.log? = none) (hrom : '\x00' ∉ o.rom.toList)
    (hread : V.files t (.ofString o.rom) = .ok image)
    (hload : Machine.load image none m = .ok () m₁) (hbreak : .breakAt ∉ o.emptied)
    (hrun : ∀ t', V.Prints (execute host ch o (m₁.session o.setup) >>= finish host o) t' r text) :
    V.Prints (runMachine host ch o m) t r text := by
  unfold runMachine
  refine .after (.checkPath hrom t) fun t₁ h₁ => ?_
  refine .after (.lift (hV.read_silent _) t₁) fun t₂ h₂ => ?_
  rw [hV.read, h₁, hread]
  simp only [hload, if_neg hbreak]
  exact .after (.lift (hV.tell_silent hch _) t₂) fun t₃ _ => hrun t₃

theorem prints_runOptions_of_rejected {e : Config.Rejection} (hlog : o.logFile = none)
    (hrates : lacksRate o = false)
    (hc : (o.config (host.entropy.run t).1).rejection? = some e) :
    V.Prints (runOptions host o) t (.ok 2) "" := by
  unfold runOptions
  rw [channels_ofOptions host hlog, pure_bind, hrates]
  refine View.Prints.after (.lift hV.entropy_silent t) fun t₁ h₁ => ?_
  simp only [hc]
  exact .after (.lift (hV.tell_silent rfl _) _) fun t₂ _ => .pure _ t₂

/-- Where the machine cannot be made, there is no exit status. -/
theorem prints_runOptions_of_failed {e : Failure} (hlog : o.logFile = none)
    (hrates : lacksRate o = false)
    (hc : (o.config (host.entropy.run t).1).rejection? = none) (hseed : .seed ∉ o.emptied)
    (hm : Machine.create host.room (o.config (host.entropy.run t).1) = .error e) :
    V.Prints (runOptions host o) t (.error (.failure e)) "" := by
  unfold runOptions
  rw [channels_ofOptions host hlog, pure_bind, hrates]
  refine View.Prints.after (.lift hV.entropy_silent t) fun t₁ h₁ => ?_
  simp only [hc, if_neg hseed, hm]
  exact .throw _ t₁

/-- Once the machine is made, all is left to it. -/
theorem prints_runOptions_of_created {m : Machine} (hlog : o.logFile = none)
    (hrates : lacksRate o = false)
    (hc : (o.config (host.entropy.run t).1).rejection? = none) (hseed : .seed ∉ o.emptied)
    (hm : Machine.create host.room (o.config (host.entropy.run t).1) = .ok m)
    (hrun : ∀ ch t', ch.log? = none → V.files t' = V.files t →
      V.Prints (runMachine host ch o m) t' r text) :
    V.Prints (runOptions host o) t r text := by
  unfold runOptions
  rw [channels_ofOptions host hlog, pure_bind, hrates]
  refine View.Prints.after (.lift hV.entropy_silent t) fun t₁ h₁ => ?_
  simp only [hc, if_neg hseed, hm]
  exact .after (.lift (hV.tell_silent rfl _) t₁) fun t₂ h₂ => hrun _ t₂ rfl (h₂.trans h₁)

end Host.Serves

end Chip8.CommandLine
