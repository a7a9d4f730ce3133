import Mathlib.Data.List.Induction
import Chip8.Proofs.Parts
import Chip8.Proofs.Reset
import Chip8.Proofs.Visits

/-!
# The stream of random bytes

The generator of a machine is the one of its seed, as many bytes on as random instructions have
been executed since the start or the last reset (`random_of_leads`). Nothing else moves it: not
what fails, and not what is done to the machine from outside.
-/

namespace Chip8

namespace Random

/-- The generator after `k` bytes. -/
def skip (g : Random) : Nat → Random
  | 0 => g
  | k + 1 => (g.skip k).byte.2

/-- The byte that comes after `k` others. -/
def nth (g : Random) (k : Nat) : UInt8 :=
  (g.skip k).byte.1

end Random

namespace Machine

variable {room : Room} {c : Config} {m n : Machine} {i : Instr}

/-! ## One step -/

/-- The instruction at the counter takes a random byte. -/
def rolls (m : Machine) : Bool :=
  match m.fetched with
  | .ok (.byte .random _ _) => true
  | _ => false

theorem exists_of_rolls (h : m.rolls = true) :
    ∃ (x : Fin 16) (kk : Int), m.fetched = .ok (.byte .random x.val kk) := by
  unfold rolls at h
  split at h
  · rename_i x kk hf
    obtain ⟨s, rfl, -⟩ := (fits_of_fetched hf).byte
    exact ⟨s, kk, hf⟩
  · cases h

theorem step_of_roll {x : Fin 16} {kk : Int} (hf : m.fetched = .ok (.byte .random x.val kk)) :
    ∃ n, step m = .ok (.byte .random x.val kk) n ∧ n.random = m.random.byte.2 ∧
      n.registers.v.get x = m.random.byte.1 &&& UInt8.ofInt kk := by
  have hexecute : execute (.byte .random x.val kk) (m.launched (.byte .random x.val kk)) =
      .ok () { m.launched (.byte .random x.val kk) with
        registers := (m.launched (.byte .random x.val kk)).registers.set x
          (m.random.byte.1 &&& UInt8.ofInt kk)
        random := m.random.byte.2 } := by
    simp only [execute, executeByte, bind_apply, randomByte, setRegister_fin, Byte.ofInt_toNat]
    rfl
  refine ⟨_, step_eq_ok_iff.2 ⟨hf, hexecute⟩, rfl, ?_⟩
  exact Vector.getElem_set_self _

/-- Whatever comes of its execution, an instruction that takes no random byte leaves the stream
where it was. -/
theorem random_of_fetched (hf : m.fetched = .ok i) (hi : i.opcode ∉ Part.random.writers) :
    (after step m).random = m.random := by
  have hkept : (after (execute i) (m.launched i)).random = m.random :=
    kept_after_execute (q := .random) hi (m.launched i)
  rcases after_step_of_fetched hf with heq | heq
  · rw [heq]
    exact hkept
  · rw [heq]
    exact hkept

theorem random_step (m : Machine) :
    (after step m).random = if m.rolls then m.random.byte.2 else m.random := by
  by_cases hr : m.rolls = true
  · obtain ⟨x, kk, hf⟩ := exists_of_rolls hr
    obtain ⟨n, hs, hrandom, -⟩ := step_of_roll hf
    rw [if_pos hr, after_of_ok hs]
    exact hrandom
  · rw [if_neg hr]
    cases hf : m.fetched with
    | error e => rw [after_step_of_error hf]
    | ok i =>
      apply random_of_fetched hf
      intro hwriter
      have hop : i.opcode = .byte .random := List.mem_singleton.1 hwriter
      apply hr
      unfold rolls
      cases i with
      | byte op x kk =>
        cases hop
        rw [hf]
      | _ => cases hop

/-! ## Sessions -/

theorem foldl_rolls (g : Random) (ns : List Machine) :
    ns.foldl (fun g s => if s.rolls then g.byte.2 else g) g = g.skip (ns.filter rolls).length := by
  induction ns using List.reverseRecOn with
  | nil => rfl
  | append_singleton ns s ih =>
    rw [List.foldl_append, ih, List.filter_append, List.length_append]
    by_cases hr : s.rolls = true
    · simp [hr, Random.skip]
    · simp [hr]

/-- A session without resets moves the generator on by one byte for each random instruction. -/
theorem random_of_leads {quiet : Command → Prop} {ns : List Machine}
    (hquiet : ∀ d m, quiet d → (after (perform d) m).random = m.random)
    (h : Leads quiet m ns n) : n.random = m.random.skip (ns.filter rolls).length := by
  rw [← foldl_rolls]
  exact h.eq_foldl random_step (fun _ => rfl) (fun _ _ => rfl) hquiet

/-- What stands before an element that a filter keeps. -/
theorem exists_split_of_getElem?_filter {ns : List Machine} {p : Machine → Bool} {k : Nat}
    (h : (ns.filter p)[k]? = some n) :
    ∃ before rest, ns = before ++ n :: rest ∧ (before.filter p).length = k ∧ p n = true := by
  induction ns generalizing k with
  | nil => cases h
  | cons s ns ih =>
    by_cases hs : p s = true
    · rw [List.filter_cons_of_pos hs] at h
      cases k with
      | zero =>
        cases h
        exact ⟨[], ns, rfl, rfl, hs⟩
      | succ k =>
        obtain ⟨before, rest, rfl, hk, hn⟩ := ih h
        exact ⟨s :: before, rest, rfl, by rw [List.filter_cons_of_pos hs, List.length_cons, hk], hn⟩
    · rw [List.filter_cons_of_neg hs] at h
      obtain ⟨before, rest, rfl, hk, hn⟩ := ih h
      exact ⟨s :: before, rest, rfl, by rw [List.filter_cons_of_neg hs, hk], hn⟩

/-- Where the stream starts. -/
theorem random_of_restart {s : Int} {fresh : Machine} {before : List Command}
    (hseed : c.seed = some s) (h : create room c = .ok fresh)
    (hbefore : before = [] ∨ ∃ ds, before = ds ++ [.reset]) :
    (fresh.session before).random = .seeded s := by
  have hstart (ds : List Command) : (fresh.session (ds ++ [.reset])).random = .seeded s := by
    obtain ⟨m', hreset, -, hrandom, -⟩ := reset_session hseed h ds
    have hperform : perform .reset (fresh.session ds) = .ok .done m' :=
      bind_eq_ok_iff.2 ⟨(), m', hreset, rfl⟩
    rw [session_append, ← hrandom]
    exact congrArg random (after_of_ok hperform)
  rcases hbefore with rfl | ⟨ds, rfl⟩
  · obtain ⟨m', hreset, -, hrandom, -⟩ := reset_session hseed h []
    have hsame : reset (fresh.session []) = .ok () fresh := reset_of_create h
    rw [hsame] at hreset
    cases hreset
    exact hrandom
  · exact hstart ds

/-- Random bytes depend on the seed and on a count alone. Let a session with a machine that was
created with a seed have just started, or have just reset it, and go on in any way but with another
reset. The random instruction that is then executed after `k` others puts byte `k` of the stream of
the seed, masked, into its register; and nothing but these instructions moves the stream. -/
theorem random_bytes_counted {s : Int} {fresh : Machine} (hseed : c.seed = some s)
    (h : create room c = .ok fresh) (before cs : List Command)
    (hbefore : before = [] ∨ ∃ ds, before = ds ++ [.reset])
    (hcs : ∀ d ∈ cs, d ≠ .reset ∧ ∀ e, d ≠ .execute e) :
    (fresh.session (before ++ cs)).random = (Random.seeded s).skip
      (((fresh.session before).visits cs).filter rolls).length ∧
    ∀ k m, (((fresh.session before).visits cs).filter rolls)[k]? = some m →
      ∃ (x : Fin 16) (kk : Int) (n : Machine), step m = .ok (.byte .random x.val kk) n ∧
        n.registers.v.get x = (Random.seeded s).nth k &&& UInt8.ofInt kk := by
  have hstart := random_of_restart hseed h hbefore
  have hquiet (d : Command) (m : Machine) (hd : d ∈ cs ∧ ¬ d.TakesSteps) :
      (after (perform d) m).random = m.random :=
    (spared_perform hd.2 (hcs d hd.1).2 (hcs d hd.1).1 m).random
  have hleads : Leads (fun d => d ∈ cs ∧ ¬ d.TakesSteps) (fresh.session before)
      ((fresh.session before).visits cs) ((fresh.session before).session cs) :=
    leads_session (fun d hd hsteps => ⟨hd, hsteps⟩) (fresh.session before)
  constructor
  · rw [session_append, ← hstart]
    exact random_of_leads hquiet hleads
  · intro k m hk
    obtain ⟨steps, rest, hsplit, hcount, hrolls⟩ := exists_split_of_getElem?_filter hk
    rw [hsplit] at hleads
    have hrandom := random_of_leads hquiet hleads.upTo
    rw [hstart, hcount] at hrandom
    obtain ⟨x, kk, hf⟩ := exists_of_rolls hrolls
    obtain ⟨n, hs, -, hx⟩ := step_of_roll hf
    refine ⟨x, kk, n, hs, ?_⟩
    rw [hx, hrandom]
    rfl

/-- A random instruction after a reset, and then after a step that fails and a boot. -/
theorem random_bytes_counted_rebooted :
    ∃ fresh m n, create .unlimited small = .ok fresh ∧ step m = .ok (.byte .random 1 0x0F) n ∧
      n.registers.v.get 1 = (Random.seeded 7).nth 0 &&& 0x0F ∧
      (fresh.session ([.load [0xC1, 0x0F] none, .reset] ++
        [.setCounter 95, .step, .boot, .tick, .step])).random = (Random.seeded 7).skip 1 := by
  obtain ⟨fresh, hcreate, hcheck⟩ := exists_create .unlimited small
    (fun m => decide ((((m.session [.load [0xC1, 0x0F] none, .reset]).visits
      [.setCounter 95, .step, .boot, .tick, .step]).filter rolls).map
        (fun s => s.fetched.toOption) = [some (.byte .random 1 0x0F)])) (by decide +kernel)
  obtain ⟨m, hone, hfetched⟩ := List.map_eq_singleton_iff.1 (of_decide_eq_true hcheck)
  obtain ⟨hrandom, hbytes⟩ := random_bytes_counted (s := 7) rfl hcreate
    [.load [0xC1, 0x0F] none, .reset] [.setCounter 95, .step, .boot, .tick, .step]
    (.inr ⟨[.load [0xC1, 0x0F] none], rfl⟩) (by simp)
  rw [hone] at hrandom hbytes
  obtain ⟨x, kk, n, hs, hx⟩ := hbytes 0 m rfl
  rw [(step_eq_ok_iff.1 hs).1] at hfetched
  obtain ⟨hxone, rfl⟩ : (x.val : Int) = 1 ∧ kk = 0x0F := by
    simpa [Except.toOption] using hfetched
  obtain rfl : x = 1 := Fin.ext (by omega)
  exact ⟨fresh, m, n, hcreate, hs, hx, hrandom⟩

end Machine

end Chip8
