import Chip8.Proofs.Mnemonics
import Chip8.Proofs.Reset
import Chip8.Proofs.Visits

/-!
# The trace is a faithful record

A line of the trace is a row of words: the counter, the words of the mnemonic, blanks up to the
registers, and one word for each register. So a line tells its entry (`line_injective`). A step
adds one entry if there is an instruction at the counter, whatever comes of it, and nothing else
adds any; so the trace of a session lists the instructions at which it took a step.
-/

namespace Chip8

/-! ## The words of the registers -/

namespace Registers

def columns (r : Registers) : List String :=
  r.v.toList.zipIdx.map fun p => columnText p.2 p.1

def words (r : Registers) : List String :=
  ("PC=" ++ Hex.padded 3 r.pc.toNat) :: ("I=" ++ Hex.padded 3 r.i.toNat) :: r.columns

theorem length_columns (r : Registers) : r.columns.length = 16 := by
  simp [columns]

theorem length_words (r : Registers) : r.words.length = 18 := by
  simp [words, length_columns]

theorem text_eq_intercalate (r : Registers) : r.text = " ".intercalate r.words := by
  have hcolumns : r.columns ≠ [] := by
    intro h
    have hlen := r.length_columns
    rw [h] at hlen
    cases hlen
  unfold words
  rw [String.intercalate_cons_cons, String.intercalate_cons_of_ne_nil hcolumns]
  apply String.toList_inj.1
  simp [text, columns]

theorem isWord_of_mem_words {r : Registers} {w : String} (h : w ∈ r.words) : IsWord w := by
  have hcounter : IsWord "PC=" := by decide
  have hindex : IsWord "I=" := by decide
  have hcolumn : IsWord "V" := by decide
  have heq : Unbroken "=" := by decide
  rcases List.mem_cons.1 h with rfl | h
  · exact hcounter.append (unbroken_padded 3 _)
  · rcases List.mem_cons.1 h with rfl | h
    · exact hindex.append (unbroken_padded 3 _)
    · obtain ⟨⟨b, k⟩, -, rfl⟩ := List.mem_map.1 h
      exact ((hcolumn.append (unbroken_padded 0 k)).append heq).append (unbroken_padded 2 _)

theorem eq_of_padded_eq {s : String} {w a b : Nat}
    (h : s ++ Hex.padded w a = s ++ Hex.padded w b) : a = b := by
  have hnumber : (a : Int) = b := Hex.padded_injective w ((String.append_right_inj s).1 h)
  exact Int.ofNat_inj.1 hnumber

theorem v_eq_of_columns_eq {r s : Registers} (h : r.columns = s.columns) : r.v = s.v := by
  apply Vector.ext
  intro k hk
  have hcolumn : columnText k r.v[k] = columnText k s.v[k] := by
    have hget := congrArg (·[k]?) h
    simpa [columns, hk] using hget
  exact UInt8.toNat_inj.1 (eq_of_padded_eq hcolumn)

/-- The words of the registers tell their values. -/
theorem words_injective : Function.Injective words := by
  intro r s h
  obtain ⟨hcounter, hrest⟩ := List.cons.inj h
  obtain ⟨hindex, hcolumns⟩ := List.cons.inj hrest
  have hpc : r.pc = s.pc := UInt16.toNat_inj.1 (eq_of_padded_eq hcounter)
  have hi : r.i = s.i := UInt16.toNat_inj.1 (eq_of_padded_eq hindex)
  have hv := v_eq_of_columns_eq hcolumns
  cases r
  cases s
  cases hpc
  cases hi
  cases hv
  rfl

end Registers

/-! ## The words of a line -/

namespace TraceEntry

/-- The words up to the blanks. -/
def lead (e : TraceEntry) : List String :=
  ("$" ++ Hex.padded 3 e.registers.pc.toNat ++ ":") :: e.instr.words

/-- All words, those between the blanks included. -/
def words (e : TraceEntry) : List String :=
  e.lead ++ List.replicate (mnemonicColumns - e.instr.mnemonic.length) "" ++ e.registers.words

theorem words_ne_nil (e : TraceEntry) : e.words ≠ [] := by
  unfold words lead
  exact List.cons_ne_nil _ _

theorem line_eq_intercalate (e : TraceEntry) : e.line = " ".intercalate e.words := by
  have hlead : e.lead ≠ [] := List.cons_ne_nil _ _
  have hregisters : e.registers.words ≠ [] := List.cons_ne_nil _ _
  have hfront : e.lead ++ List.replicate (mnemonicColumns - e.instr.mnemonic.length) "" ≠ [] := by
    simp [hlead]
  unfold words
  rw [String.intercalate_append_of_ne_nil hfront hregisters, intercalate_append_replicate _ hlead,
    ← Registers.text_eq_intercalate]
  unfold lead
  rw [String.intercalate_cons_of_ne_nil (Instr.words_ne_nil _), ← Instr.mnemonic_eq_intercalate]
  apply String.toList_inj.1
  simp [line, Column.padRight]

theorem isWord_of_mem_lead {e : TraceEntry} {w : String} (h : w ∈ e.lead) : IsWord w := by
  rcases List.mem_cons.1 h with rfl | h
  · exact (Instr.isWord_dollar 3 _).append (by decide)
  · exact Instr.isWord_of_mem_words h

theorem unbroken_of_mem_words {e : TraceEntry} {w : String} (h : w ∈ e.words) : Unbroken w := by
  rcases List.mem_append.1 h with h | h
  · rcases List.mem_append.1 h with h | h
    · exact (isWord_of_mem_lead h).2
    · rw [List.eq_of_mem_replicate h]
      decide
  · exact (Registers.isWord_of_mem_words h).2

/-- What is in front of the registers, without the blanks. -/
theorem lead_eq_of_append_eq {e f : TraceEntry} {j k : Nat}
    (h : e.lead ++ List.replicate j "" = f.lead ++ List.replicate k "") : e.lead = f.lead := by
  have hfilter (g : TraceEntry) (n : Nat) :
      (g.lead ++ List.replicate n "").filter (· ≠ "") = g.lead :=
    filter_append_replicate (fun _ hw => (isWord_of_mem_lead hw).1) n
  rw [← hfilter e j, ← hfilter f k, h]

/-- A line tells the instruction and all registers. -/
theorem line_injective : Function.Injective line := by
  intro e f h
  rw [line_eq_intercalate, line_eq_intercalate] at h
  have hwords : e.words = f.words :=
    eq_of_intercalate_eq (fun _ => unbroken_of_mem_words) (fun _ => unbroken_of_mem_words)
      e.words_ne_nil f.words_ne_nil h
  have hlength : e.registers.words.length = f.registers.words.length := by
    rw [Registers.length_words, Registers.length_words]
  obtain ⟨hfront, hregisters⟩ := List.append_inj' hwords hlength
  obtain ⟨-, hinstr⟩ := List.cons.inj (lead_eq_of_append_eq hfront)
  have hi := Instr.words_injective hinstr
  have hr := Registers.words_injective hregisters
  cases e
  cases f
  cases hi
  cases hr
  rfl

theorem line_ne_empty (e : TraceEntry) : e.line ≠ "" := by
  intro h
  have hlist := congrArg String.toList h
  simp [line] at hlist

theorem newline_notMem_line (e : TraceEntry) : '\n' ∉ e.line.toList := by
  rw [line_eq_intercalate]
  exact newline_notMem_intercalate fun w hw => unbroken_of_mem_words hw

end TraceEntry

namespace Machine

/-! ## What a session records -/

theorem linesOf_traceText (m : Machine) :
    linesOf m.traceText = m.trace.toList.map TraceEntry.line := by
  apply linesOf_intercalate
  intro l hl
  obtain ⟨e, -, rfl⟩ := List.mem_map.1 hl
  exact ⟨e.line_ne_empty, e.newline_notMem_line⟩

/-- What a step records: the instruction at the counter, if there is one, and the registers. -/
def entry? (m : Machine) : Option TraceEntry :=
  match m.fetched with
  | .ok i => some ⟨m.registers, i⟩
  | .error _ => none

/-- The switch of the trace and what is in it. -/
def recorded (m : Machine) : Bool × List TraceEntry :=
  (m.tracing, m.trace.toList)

/-- A record after a step from the machine. -/
def recordStep (p : Bool × List TraceEntry) (m : Machine) : Bool × List TraceEntry :=
  (p.1, if p.1 then p.2 ++ m.entry?.toList else p.2)

theorem recorded_of_debugger {m n : Machine} (h : m.debugger = n.debugger) :
    m.recorded = n.recorded := by
  have htracing : m.tracing = n.tracing := congrArg Debugger.tracing h
  have htrace : m.trace = n.trace := congrArg Debugger.trace h
  unfold recorded
  rw [htracing, htrace]

/-- A step records its instruction, whether that fails or not. -/
theorem recorded_step (m : Machine) : (after step m).recorded = recordStep m.recorded m := by
  cases hf : m.fetched with
  | error e =>
    have hentry : m.entry? = none := by
      unfold entry?
      rw [hf]
    unfold recordStep
    rw [after_step_of_error hf, hentry, Option.toList_none, List.append_nil, ite_self]
  | ok i =>
    have hentry : m.entry? = some ⟨m.registers, i⟩ := by
      unfold entry?
      rw [hf]
    have hlaunched : (m.launched i).recorded = recordStep m.recorded m := by
      unfold recorded recordStep launched
      rw [hentry]
      by_cases ht : m.tracing = true
      · simp [ht]
      · simp [ht]
    have hexecute : (after (execute i) (m.launched i)).recorded = (m.launched i).recorded :=
      recorded_of_debugger ((Detached.execute i).debugger_after (m.launched i))
    rw [← hlaunched, ← hexecute]
    rcases after_step_of_fetched hf with heq | heq
    · rw [heq]
    · rw [heq]
      rfl

/-- Besides the steps only commands for the trace change it. -/
theorem recorded_perform {c : Command} (hsteps : ¬ c.TakesSteps) (htrace : ¬ c.SetsTrace)
    (m : Machine) : (after (perform c) m).recorded = m.recorded := by
  by_cases he : ∃ e, c = .execute e
  · obtain ⟨entry, rfl⟩ := he
    have hafter : after (perform (.execute entry)) m = after (executeEntry entry) m :=
      after_bind_pure _ _ m
    rw [hafter]
    cases entry with
    | blank => rfl
    | instr i => exact recorded_of_debugger ((Detached.execute i).debugger_after m)
  · have hreset : c ≠ .reset := by
      rintro rfl
      exact htrace trivial
    have hspared := spared_perform hsteps (fun e heq => he ⟨e, heq⟩) hreset m
    obtain ⟨hon, hkept⟩ := hspared.trace htrace
    unfold recorded
    rw [hon, hkept]

theorem foldl_recordStep (ts : List TraceEntry) (ns : List Machine) :
    ns.foldl recordStep (true, ts) = (true, ts ++ ns.filterMap entry?) := by
  induction ns generalizing ts with
  | nil => simp
  | cons s ns ih =>
    have hstep : recordStep (true, ts) s = (true, ts ++ s.entry?.toList) := rfl
    rw [List.foldl_cons, hstep, ih, List.append_assoc]
    cases hs : s.entry? <;> simp [hs]

/-- With the trace on, a session adds what its steps record, in order. -/
theorem trace_session {m : Machine} {cs : List Command} (hon : m.tracing = true)
    (hcs : ∀ d ∈ cs, ¬ d.SetsTrace) :
    (m.session cs).trace.toList = m.trace.toList ++ (m.visits cs).filterMap entry? := by
  have hleads : Leads (fun d => ¬ d.TakesSteps ∧ ¬ d.SetsTrace) m (m.visits cs) (m.session cs) :=
    leads_session (fun d hd hsteps => ⟨hsteps, hcs d hd⟩) m
  have hfold := hleads.eq_foldl recorded_step (fun _ => rfl) (fun _ _ => rfl)
    (fun _ m hd => recorded_perform hd.1 hd.2 m)
  have hstart : m.recorded = (true, m.trace.toList) := by
    unfold recorded
    rw [hon]
  rw [hstart, foldl_recordStep] at hfold
  exact congrArg Prod.snd hfold

/-- The trace is a faithful record. With the trace on and empty at first, its text has after any
session one line for each step that found an instruction, in the order of the steps and whether the
instruction failed or not, and no others; and each line tells the instruction and all registers as
they were before it ran. -/
theorem trace_lines_faithful {m : Machine} {cs : List Command} (hon : m.tracing = true)
    (hempty : m.trace = #[]) (hcs : ∀ d ∈ cs, ¬ d.SetsTrace) :
    linesOf (m.session cs).traceText = ((m.visits cs).filterMap entry?).map TraceEntry.line ∧
    ∀ (r s : Registers) (i j : Instr),
      TraceEntry.line ⟨r, i⟩ = TraceEntry.line ⟨s, j⟩ → r = s ∧ i = j := by
  constructor
  · rw [linesOf_traceText, trace_session hon hcs, hempty, List.nil_append]
  · intro r s i j h
    have hentry := TraceEntry.line_injective h
    exact ⟨congrArg TraceEntry.registers hentry, congrArg TraceEntry.instr hentry⟩

/-- The lines of a load and a return. -/
def loadLines : List String :=
  ["$054: LD V0, $01       PC=054 I=000 V0=00 V1=00 V2=00 V3=00 V4=00 V5=00 V6=00 V7=00 " ++
    "V8=00 V9=00 VA=00 VB=00 VC=00 VD=00 VE=00 VF=00",
   "$056: RET              PC=056 I=000 V0=01 V1=00 V2=00 V3=00 V4=00 V5=00 V6=00 V7=00 " ++
    "V8=00 V9=00 VA=00 VB=00 VC=00 VD=00 VE=00 VF=00"]

/-- The return, which fails, is recorded; a step beyond the end of memory is not. -/
theorem trace_lines_faithful_failing :
    ∃ m : Machine, m.Reachable ∧ m.tracing = true ∧ m.trace = #[] ∧
      (m.visits [.run 5 none, .setCounter 95, .step]).length = 3 ∧
      linesOf (m.session [.run 5 none, .setCounter 95, .step]).traceText = loadLines := by
  obtain ⟨m, hreach, hcheck⟩ := exists_reachable small
    [.load [0x60, 0x01, 0x00, 0xEE] none, .setTracing true]
    (fun m => decide (m.tracing = true ∧ m.trace = #[] ∧
      (m.visits [.run 5 none, .setCounter 95, .step]).length = 3 ∧
      ((m.visits [.run 5 none, .setCounter 95, .step]).filterMap entry?).map TraceEntry.line =
        loadLines)) (by decide +kernel) (by decide +kernel)
  obtain ⟨hon, hempty, hcount, hlines⟩ := of_decide_eq_true hcheck
  have hcs : ∀ d ∈ ([.run 5 none, .setCounter 95, .step] : List Command), ¬ d.SetsTrace := by
    simp [Command.SetsTrace]
  exact ⟨m, hreach, hon, hempty, hcount, (trace_lines_faithful hon hempty hcs).1.trans hlines⟩

end Machine

end Chip8
