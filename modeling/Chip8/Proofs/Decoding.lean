import Chip8.Proofs.Encoding

/-!
# Decoding

`decode` accepts exactly the grammar: `decode_eq_ok_iff` and `decode_eq_fault_iff` give every
outcome for a word of sixteen bits in terms of shapes and readings. No word has two readings but
those that are `CLS` or `RET` as well as `SYS`, so that only the place of `SYS` among the candidates
matters. Decoding the word of an instruction gives the instruction back, but for these two words.
-/

namespace Chip8

/-! ## Candidates -/

namespace Opcode

/-- The opcodes that share their words with `SYS` come before it. -/
def SysLast (l : List Opcode) : Prop :=
  l.Pairwise fun o p => o = .addr .sys → p ∉ plains.map plain

theorem sysLast_all : SysLast all := by
  unfold SysLast
  decide

theorem mem_before_sys {l before after : List Opcode} {p : Opcode} (hs : SysLast l)
    (hl : l = before ++ .addr .sys :: after) (hp : p ∈ plains.map plain) (hm : p ∈ l) :
    p ∈ before := by
  rw [hl] at hs hm
  rcases List.mem_append.1 hm with hb | ha
  · exact hb
  · rcases List.mem_cons.1 ha with rfl | ha
    · exact absurd hp (by decide)
    · have hafter := (List.pairwise_append.1 hs).2.1
      exact absurd hp ((List.pairwise_cons.1 hafter).1 p ha rfl)

/-- What the first candidate is, if every opcode that matches is a candidate: an opcode that
matches, and `SYS` only when no other does. -/
theorem find?_eq_some_iff {l : List Opcode} {w : Nat} {o : Opcode}
    (hl : ∀ p : Opcode, p.matchesWord w = true → p ∈ l) (hs : SysLast l) :
    l.find? (·.matchesWord w) = some o ↔ o.matchesWord w = true ∧
      (o = .addr .sys → ∀ p ∈ plains.map plain, p.matchesWord w = false) := by
  have hfound : ∀ {q}, l.find? (·.matchesWord w) = some q → q.matchesWord w = true ∧
      (q = .addr .sys → ∀ p ∈ plains.map plain, p.matchesWord w = false) := by
    intro q hq
    obtain ⟨hm, before, after, hsplit, hbefore⟩ := List.find?_eq_some_iff_append.1 hq
    refine ⟨hm, fun hsys p hp => Bool.eq_false_iff.2 fun hpw => ?_⟩
    subst hsys
    have hskipped := hbefore p (mem_before_sys hs hsplit hp (hl p hpw))
    rw [hpw] at hskipped
    cases hskipped
  constructor
  · exact hfound
  · rintro ⟨hm, hsys⟩
    have hsome : (l.find? (·.matchesWord w)).isSome := List.find?_isSome.2 ⟨o, hl o hm, hm⟩
    obtain ⟨q, hq⟩ := Option.isSome_iff_exists.1 hsome
    obtain ⟨hqm, hqs⟩ := hfound hq
    rw [hq]
    -- Two candidates that match are `SYS` and one of those before it.
    by_contra hne
    have hqo : q ≠ o := fun h => hne (h ▸ rfl)
    rcases sys_and_plain_of_matchesWord hm hqm hqo with ⟨ho, hp⟩ | ⟨hq, hp⟩
    · rw [hsys ho q hp] at hqm
      cases hqm
    · rw [hqs hq o hp] at hm
      cases hm

/-- The first digit is fixed by every opcode. -/
theorem pattern_div_of_matches {o : Opcode} {w : Nat} (hw : w ≤ 0xFFFF)
    (h : o.shape.Matches w) : o.pattern / 4096 = w / 4096 := by
  obtain ⟨k, hk, hp⟩ : ∃ k : Fin 16, o.shape.first = .is k ∧ o.pattern / 4096 = k.val := by
    rcases o with op | op | op | op | op | _ <;>
      first | (cases op <;> exact ⟨_, rfl, rfl⟩) | exact ⟨_, rfl, rfl⟩
  have hfirst := h.1
  rw [hk] at hfirst
  have hdigit : w / 4096 % 16 = k.val := hfirst
  omega

/-- The two words that are not only `SYS`. -/
theorem plain_matches_iff {w : Nat} (hw : w ≤ 0xFFFF) :
    (∃ op : Op.Plain, (plain op).shape.Matches w) ↔ w = 0x00E0 ∨ w = 0x00EE := by
  constructor
  · rintro ⟨op, h⟩
    cases op <;> simp only [shape, Shape.Matches, Sign.Admits] at h <;> omega
  · rintro (rfl | rfl)
    · exact ⟨.clear, by decide⟩
    · exact ⟨.ret, by decide⟩

theorem forall_plains_iff {w : Nat} (hw : w ≤ 0xFFFF) :
    (∀ p ∈ plains.map plain, p.matchesWord w = false) ↔ w ≠ 0x00E0 ∧ w ≠ 0x00EE := by
  rw [← not_or, ← plain_matches_iff hw]
  constructor
  · rintro h ⟨op, hop⟩
    have hmem : op ∈ plains := by cases op <;> decide
    have hfalse := h (plain op) (List.mem_map_of_mem hmem)
    rw [matchesWord_iff.2 hop] at hfalse
    cases hfalse
  · intro h p hp
    obtain ⟨op, -, rfl⟩ := List.mem_map.1 hp
    exact Bool.eq_false_iff.2 fun hm => h ⟨op, matchesWord_iff.1 hm⟩

/-- Two different opcodes have a word in common only if it is one of those two. -/
theorem eq_or_sys_of_matches {o p : Opcode} {w : Nat} (hw : w ≤ 0xFFFF) (ho : o.shape.Matches w)
    (hp : p.shape.Matches w) :
    o = p ∨ (o = .addr .sys ∨ p = .addr .sys) ∧ (w = 0x00E0 ∨ w = 0x00EE) := by
  by_cases hne : o = p
  · exact .inl hne
  · refine .inr ?_
    rcases sys_and_plain_of_matchesWord (matchesWord_iff.2 hp) (matchesWord_iff.2 ho) hne with
      ⟨hsys, hq⟩ | ⟨hsys, hq⟩
    · obtain ⟨op, -, rfl⟩ := List.mem_map.1 hq
      exact ⟨.inr hsys, (plain_matches_iff hw).1 ⟨op, ho⟩⟩
    · obtain ⟨op, -, rfl⟩ := List.mem_map.1 hq
      exact ⟨.inl hsys, (plain_matches_iff hw).1 ⟨op, hp⟩⟩

end Opcode

namespace Instr

variable {w : Nat} {limit : Int} {i : Instr}

/-- No opcode has the shape of `w`. -/
def Undefined (w : Nat) : Prop :=
  ∀ o : Opcode, ¬ o.shape.Matches w

/-- The low three digits of `w` are an address. -/
def Addressed (w : Nat) : Prop :=
  (∃ op : Op.Addr, (Opcode.addr op).shape.Matches w) ∧ w ≠ 0x00E0 ∧ w ≠ 0x00EE

/-- What any list of candidates finds in a word. -/
theorem find?_map_eq_some_iff {l : List Opcode} (hw : w ≤ 0xFFFF)
    (hl : ∀ o : Opcode, o.matchesWord w = true → o ∈ l) (hs : Opcode.SysLast l) :
    (l.find? (·.matchesWord w)).map (·.read w) = some i ↔
      Reads w i ∧ (i.opcode = .addr .sys → w ≠ 0x00E0 ∧ w ≠ 0x00EE) := by
  have hplain := Opcode.forall_plains_iff hw
  rw [Option.map_eq_some_iff]
  constructor
  · rintro ⟨o, ho, rfl⟩
    obtain ⟨hm, hsys⟩ := (Opcode.find?_eq_some_iff hl hs).1 ho
    rw [hplain] at hsys
    rw [Opcode.opcode_read]
    exact ⟨.read (Opcode.matchesWord_iff.1 hm), hsys⟩
  · rintro ⟨h, hsys⟩
    rw [← hplain] at hsys
    exact ⟨i.opcode, (Opcode.find?_eq_some_iff hl hs).2
      ⟨Opcode.matchesWord_iff.2 h.opcode_matches, hsys⟩, h.eq_read.symm⟩

theorem ofWord?_eq_some_iff (hw : w ≤ 0xFFFF) : ofWord? w = some i ↔
    Reads w i ∧ (i.opcode = .addr .sys → w ≠ 0x00E0 ∧ w ≠ 0x00EE) :=
  find?_map_eq_some_iff hw (fun o _ => Opcode.mem_all o) Opcode.sysLast_all

theorem ofWord?_eq_none_iff_undefined : ofWord? w = none ↔ Undefined w := by
  rw [ofWord?_eq_none_iff]
  exact forall_congr' fun o => by rw [← Opcode.matchesWord_iff, Bool.not_eq_true]

theorem addressed_iff (hw : w ≤ 0xFFFF) :
    Addressed w ↔ ∃ op, ofWord? w = some (.addr op (w % 4096 : Nat)) := by
  constructor
  · rintro ⟨⟨op, h⟩, hne⟩
    exact ⟨op, (ofWord?_eq_some_iff hw).2 ⟨.addr h, fun _ => hne⟩⟩
  · rintro ⟨op, h⟩
    obtain ⟨hr, hsys⟩ := (ofWord?_eq_some_iff hw).1 h
    refine ⟨⟨op, hr.opcode_matches⟩, ?_⟩
    by_contra hne
    have hword : w = 0x00E0 ∨ w = 0x00EE := by omega
    obtain ⟨p, hp⟩ := (Opcode.plain_matches_iff hw).2 hword
    rcases Opcode.eq_or_sys_of_matches hw hp hr.opcode_matches with heq | ⟨hs | hs, -⟩
    · cases heq
    · cases hs
    · exact hne (hsys hs)

/-! ## Outcomes -/

theorem decode_of_word (hw : w ≤ 0xFFFF) (limit : Int) :
    decode w limit = match ofWord? w with
      | none => .error (.fault (.invalidOpcode w))
      | some i =>
        match i.address? with
        | none => .ok i
        | some a => if a < limit then .ok i else .error (.fault (.invalidAddress a)) := by
  unfold decode
  exact if_pos ⟨Int.natCast_nonneg w, by omega⟩

theorem decode_of_undefined (hw : w ≤ 0xFFFF) (h : Undefined w) :
    decode w limit = .error (.fault (.invalidOpcode w)) := by
  rw [decode_of_word hw, ofWord?_eq_none_iff_undefined.2 h]

theorem decode_of_limit_le (hw : w ≤ 0xFFFF) (h : Addressed w) (hle : limit ≤ (w % 4096 : Nat)) :
    decode w limit = .error (.fault (.invalidAddress (w % 4096 : Nat))) := by
  obtain ⟨op, hop⟩ := (addressed_iff hw).1 h
  rw [decode_of_word hw, hop]
  exact if_neg (Int.not_lt.2 hle)

theorem decode_of_reads (hw : w ≤ 0xFFFF) (h : Reads w i)
    (hsys : i.opcode = .addr .sys → w ≠ 0x00E0 ∧ w ≠ 0x00EE)
    (hlt : Addressed w → (w % 4096 : Nat) < limit) : decode w limit = .ok i := by
  have hfound := (ofWord?_eq_some_iff hw).2 ⟨h, hsys⟩
  rw [decode_of_word hw, hfound]
  cases h with
  | addr _ => exact if_pos (hlt ((addressed_iff hw).2 ⟨_, hfound⟩))
  | _ => rfl

/-- These are all outcomes. -/
theorem decode_cases (hw : w ≤ 0xFFFF) (limit : Int) :
    Undefined w ∨ (Addressed w ∧ limit ≤ (w % 4096 : Nat)) ∨
      ∃ i, Reads w i ∧ (i.opcode = .addr .sys → w ≠ 0x00E0 ∧ w ≠ 0x00EE) ∧
        (Addressed w → (w % 4096 : Nat) < limit) := by
  cases hfound : ofWord? w with
  | none => exact .inl (ofWord?_eq_none_iff_undefined.1 hfound)
  | some i =>
    obtain ⟨h, hsys⟩ := (ofWord?_eq_some_iff hw).1 hfound
    by_cases hlt : Addressed w → (w % 4096 : Nat) < limit
    · exact .inr (.inr ⟨i, h, hsys, hlt⟩)
    · rw [Classical.not_imp, Int.not_lt] at hlt
      exact .inr (.inl hlt)

theorem decode_eq_ok_iff (hw : w ≤ 0xFFFF) : decode w limit = .ok i ↔
    Reads w i ∧ (i.opcode = .addr .sys → w ≠ 0x00E0 ∧ w ≠ 0x00EE) ∧
      (Addressed w → (w % 4096 : Nat) < limit) := by
  constructor
  · intro h
    rcases decode_cases hw limit with hu | ⟨ha, hle⟩ | ⟨j, hj⟩
    · rw [decode_of_undefined hw hu] at h
      cases h
    · rw [decode_of_limit_le hw ha hle] at h
      cases h
    · rw [decode_of_reads hw hj.1 hj.2.1 hj.2.2] at h
      cases h
      exact hj
  · rintro ⟨h, hsys, hlt⟩
    exact decode_of_reads hw h hsys hlt

theorem decode_eq_fault_iff {f : Fault} (hw : w ≤ 0xFFFF) :
    decode w limit = .error (.fault f) ↔ (Undefined w ∧ f = .invalidOpcode w) ∨
      (Addressed w ∧ limit ≤ (w % 4096 : Nat) ∧ f = .invalidAddress (w % 4096 : Nat)) := by
  constructor
  · intro h
    rcases decode_cases hw limit with hu | ⟨ha, hle⟩ | ⟨j, hj⟩
    · rw [decode_of_undefined hw hu] at h
      cases h
      exact .inl ⟨hu, rfl⟩
    · rw [decode_of_limit_le hw ha hle] at h
      cases h
      exact .inr ⟨ha, hle, rfl⟩
    · rw [decode_of_reads hw hj.1 hj.2.1 hj.2.2] at h
      cases h
  · rintro (⟨hu, rfl⟩ | ⟨ha, hle, rfl⟩)
    · exact decode_of_undefined hw hu
    · exact decode_of_limit_le hw ha hle

theorem decode_of_not_word {v : Int} (hv : ¬ (0 ≤ v ∧ v ≤ 0xFFFF)) :
    decode v limit = .error (.misuse (.wordTooWide v)) :=
  if_neg hv

theorem decode_eq_misuse_iff {v : Int} {u : Misuse} :
    decode v limit = .error (.misuse u) ↔ ¬ (0 ≤ v ∧ v ≤ 0xFFFF) ∧ u = .wordTooWide v := by
  by_cases hv : 0 ≤ v ∧ v ≤ 0xFFFF
  · refine ⟨fun h => ?_, fun h => absurd hv h.1⟩
    obtain ⟨f, hf⟩ := exists_fault_of_decode hv h
    cases hf
  · rw [decode_of_not_word hv]
    simp [hv, eq_comm]

theorem encode_of_reads (hw : w ≤ 0xFFFF) (h : Reads w i) : i.encode = .ok (i.opcode.tidy w) := by
  obtain ⟨hf, hword⟩ := (reads_iff_word_eq hw).1 h
  rw [encode_of_fits hf, hword]

/-- The decoder accepts exactly its grammar. For every number and every limit: only a number of
more than sixteen bits is misused; of the others, just those that have no shape are no
instruction, and just those whose address reaches the limit are refused for it. What is accepted
is the reading of the word, and is written as this word again, but for the digit that a shift
ignores. No word has two readings, except that `CLS` and `RET` are `SYS` words, too, so that any
list with the candidates for a word gives the same. A word accepted under one limit means the
same under every larger one, and two bytes mean the word that they make up. -/
theorem decode_accepts_grammar (v limit : Int) :
    (∀ u, decode v limit = .error (.misuse u) ↔
      ¬ (0 ≤ v ∧ v ≤ 0xFFFF) ∧ u = .wordTooWide v) ∧
    (∀ w : Nat, v = w → w ≤ 0xFFFF →
      (∀ f, decode w limit = .error (.fault f) ↔ (Undefined w ∧ f = .invalidOpcode w) ∨
        (Addressed w ∧ limit ≤ (w % 4096 : Nat) ∧ f = .invalidAddress (w % 4096 : Nat))) ∧
      (∀ i, decode w limit = .ok i ↔ Reads w i ∧
        (i.opcode = .addr .sys → w ≠ 0x00E0 ∧ w ≠ 0x00EE) ∧
        (Addressed w → (w % 4096 : Nat) < limit)) ∧
      (∀ i, decode w limit = .ok i → i.encode = .ok (i.opcode.tidy w)) ∧
      (∀ o p : Opcode, o.shape.Matches w → p.shape.Matches w →
        o = p ∨ (o = .addr .sys ∨ p = .addr .sys) ∧ (w = 0x00E0 ∨ w = 0x00EE)) ∧
      (∀ l : List Opcode, (∀ o : Opcode, o.pattern / 4096 = w / 4096 → o ∈ l) →
        Opcode.SysLast l → (l.find? (·.matchesWord w)).map (·.read w) = ofWord? w)) ∧
    (∀ limit' i, limit ≤ limit' → decode v limit = .ok i → decode v limit' = .ok i) ∧
    ∀ high low, decodeBytes high low limit =
      if (0 ≤ high ∧ high ≤ 0xFF) ∧ (0 ≤ low ∧ low ≤ 0xFF) then decode (256 * high + low) limit
      else .error (.misuse (.bytesTooWide high low)) := by
  refine ⟨fun u => decode_eq_misuse_iff, ?_, ?_, fun _ _ => rfl⟩
  · rintro w rfl hw
    refine ⟨fun f => decode_eq_fault_iff hw, fun i => decode_eq_ok_iff hw, fun i h => ?_,
      fun o p ho hp => Opcode.eq_or_sys_of_matches hw ho hp, fun l hl hs => ?_⟩
    · exact encode_of_reads hw ((decode_eq_ok_iff hw).1 h).1
    · refine Option.ext fun i => ?_
      have hcand (o : Opcode) (ho : o.matchesWord w = true) : o ∈ l :=
        hl o (Opcode.pattern_div_of_matches hw (Opcode.matchesWord_iff.1 ho))
      rw [find?_map_eq_some_iff hw hcand hs, ofWord?_eq_some_iff hw]
  · intro limit' i hle h
    by_cases hv : 0 ≤ v ∧ v ≤ 0xFFFF
    · obtain ⟨w, rfl⟩ := Int.eq_ofNat_of_zero_le hv.1
      have hw : w ≤ 0xFFFF := by omega
      obtain ⟨hr, hsys, hlt⟩ := (decode_eq_ok_iff hw).1 h
      exact (decode_eq_ok_iff hw).2 ⟨hr, hsys, fun ha => Int.lt_of_lt_of_le (hlt ha) hle⟩
    · rw [decode_of_not_word hv] at h
      cases h

/-- A shift whose ignored digit is set. -/
theorem decode_accepts_grammar_shift :
    decode 0x8AB6 0 = .ok (.reg .shiftRight 0xA) ∧ decode 0x8AB6 7 = .ok (.reg .shiftRight 0xA) ∧
      encode (.reg .shiftRight 0xA) = .ok 0x8A06 := by
  obtain ⟨-, hword, hmono, -⟩ := decode_accepts_grammar 0x8AB6 0
  obtain ⟨-, hok, hencode, -⟩ := hword 0x8AB6 rfl (by decide)
  have hplain : ¬ Addressed 0x8AB6 := by
    rintro ⟨⟨op, hop⟩, -⟩
    cases op <;> exact absurd hop (by decide)
  have h : decode 0x8AB6 0 = .ok (.reg .shiftRight 0xA) :=
    (hok _).2 ⟨.reg (by decide), nofun, fun ha => absurd ha hplain⟩
  exact ⟨h, hmono 7 _ (by decide) h, hencode _ h⟩

/-! ## Decoding what was encoded -/

/-- Only two `SYS` instructions are words of other opcodes. -/
theorem word_ne_of_sys (h0 : i ≠ .addr .sys 0x0E0) (h1 : i ≠ .addr .sys 0x0EE)
    (hf : i.Fits) (hi : i.opcode = .addr .sys) : i.word ≠ 0x00E0 ∧ i.word ≠ 0x00EE := by
  cases i with
  | addr op nnn =>
    cases hi
    rw [fits_iff] at hf
    have hw : (addr .sys nnn).word = nnn.toNat := by
      rw [word_addr]
      exact Nat.zero_add _
    simp only [ne_eq, addr.injEq, true_and] at h0 h1
    omega
  | _ => cases hi

/-- Decoding undoes encoding. An instruction is refused at its first operand that does not fit its
field, if there is one. Every other has a word of sixteen bits, which decodes to the instruction
itself as far as an address allows; only the words of `SYS $0E0` and `SYS $0EE` decode to `CLS` and
`RET`, whatever the limit. -/
theorem decode_encode (i : Instr) (limit : Int) :
    (¬ i.Fits ∧ ∃ before p after, i.operands = before ++ p :: after ∧
      (∀ q ∈ before, q.1.Fits q.2) ∧ ¬ p.1.Fits p.2 ∧ i.encode = .error (i.refusal p)) ∨
    (i.Fits ∧ ∃ w : Nat, i.encode = .ok w ∧ w ≤ 0xFFFF ∧ decode w limit =
      if i = .addr .sys 0x0E0 then .ok (.plain .clear)
      else if i = .addr .sys 0x0EE then .ok (.plain .ret)
      else match i.address? with
        | none => .ok i
        | some a => if a < limit then .ok i else .error (.fault (.invalidAddress a))) := by
  by_cases hf : i.Fits
  · have hw := word_le hf
    refine .inr ⟨hf, i.word, encode_of_fits hf, hw, ?_⟩
    by_cases h0 : i = .addr .sys 0x0E0
    · subst h0
      rw [if_pos rfl]
      exact decode_of_reads hw (.plain (by decide)) nofun fun ha => absurd rfl ha.2.1
    · by_cases h1 : i = .addr .sys 0x0EE
      · subst h1
        rw [if_neg h0, if_pos rfl]
        exact decode_of_reads hw (.plain (by decide)) nofun fun ha => absurd rfl ha.2.2
      · have hfound := (ofWord?_eq_some_iff hw).2 ⟨reads_word hf, word_ne_of_sys h0 h1 hf⟩
        rw [if_neg h0, if_neg h1, decode_of_word hw, hfound]
  · exact .inl ⟨hf, encode_of_not_fits hf⟩

end Instr

end Chip8
