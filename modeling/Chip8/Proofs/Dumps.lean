import Chip8.Memory.Dump
import Chip8.Proofs.Bytes
import Chip8.Proofs.Cells
import Chip8.Proofs.Numerals

/-!
# Hex dumps read back

A line of a dump has an address, a field of 47 columns with the bytes, and a text. The width of the
address and that of the field say where each part starts, so a line is read from left to right
(`Row.ofLine?`) and whatever stands in the text cannot be taken for a byte. What is read from all
lines are the bytes of the range, in order (`bytes_rows`).
-/

namespace Chip8.Memory

variable {m : Memory} {bytes : List UInt8}

/-! ## Reading a line -/

/-- What a line shows. -/
structure Row where
  address : Int
  bytes : List UInt8
  text : List Char
  deriving DecidableEq, Repr

namespace Row

/-- The address ends at the first blank. -/
def front (line : List Char) : List Char :=
  line.takeWhile (· ≠ ' ')

/-- The field of the bytes begins two columns behind the address. -/
def field (line : List Char) : List Char :=
  (line.drop ((front line).length + 2)).take hexColumns

/-- The text begins two columns behind the field. -/
def margin (line : List Char) : List Char :=
  line.drop ((front line).length + 2 + hexColumns + 2)

def byte? (word : String) : Option UInt8 :=
  (Numeral.read? 16 word.toList).map UInt8.ofInt

def ofLine? (line : String) : Option Row := do
  let address ← Numeral.read? 16 (front line.toList)
  let bytes ← (wordsOf (String.ofList (field line.toList))).mapM byte?
  return ⟨address, bytes, margin line.toList⟩

end Row

/-! ## Lines of a dump -/

/-- The parts of a line, the last column of the bytes included. -/
theorem toList_lineText (address : Int) (bytes : List UInt8) :
    (lineText address bytes).toList = (Hex.padded 3 address).toList ++ ' ' :: ' ' ::
      ((Column.padRight hexColumns (" ".intercalate (bytes.map Hex.byte))).toList ++ ' ' :: ' ' ::
        bytes.map asciiChar) := by
  simp [lineText]

theorem length_byte (b : UInt8) : (Hex.byte b).length = 2 := by
  have hdigits : (Hex.digits b.toNat).length ≤ 2 := by
    unfold Hex.digits
    rw [List.length_map, Nat.length_toDigits_le_iff (by decide) (by decide)]
    exact b.toNat_lt
  have htext : Hex.byte b = String.ofList (Hex.zeroPad 2 (Hex.digits b.toNat)) := rfl
  rw [htext, String.length_ofList, Hex.length_zeroPad, Nat.max_eq_left hdigits]

theorem length_intercalate_byte (hne : bytes ≠ []) :
    (" ".intercalate (bytes.map Hex.byte)).length + 1 = 3 * bytes.length := by
  induction bytes with
  | nil => exact absurd rfl hne
  | cons b bs ih =>
    have hspace : " ".length = 1 := by decide
    by_cases hnil : bs = []
    · rw [hnil, List.map_singleton, String.intercalate_singleton, length_byte,
        List.length_singleton]
    · have hmap : bs.map Hex.byte ≠ [] := fun h => hnil (List.map_eq_nil_iff.1 h)
      have hrest := ih hnil
      rw [List.map_cons, String.intercalate_cons_of_ne_nil hmap, String.length_append,
        String.length_append, length_byte, hspace, List.length_cons]
      omega

/-- Sixteen bytes fill their field, and fewer are padded to its width. -/
theorem length_padRight_bytes (hne : bytes ≠ []) (hlen : bytes.length ≤ 16) :
    (Column.padRight hexColumns (" ".intercalate (bytes.map Hex.byte))).length = hexColumns := by
  have hlength := length_intercalate_byte hne
  have hwidth : hexColumns = 47 := rfl
  rw [Column.length_padRight]
  omega

theorem byte?_byte (b : UInt8) : Row.byte? (Hex.byte b) = some b := by
  unfold Row.byte? Hex.byte
  rw [Numeral.read?_padded, Option.map_some, Byte.ofInt_toNat]

theorem mapM_byte? (bytes : List UInt8) : (bytes.map Hex.byte).mapM Row.byte? = some bytes := by
  induction bytes with
  | nil => rfl
  | cons b bs ih =>
    rw [List.map_cons, List.mapM_cons, byte?_byte, ih]
    rfl

theorem wordsOf_bytes (hne : bytes ≠ []) :
    wordsOf (Column.padRight hexColumns (" ".intercalate (bytes.map Hex.byte))) =
      bytes.map Hex.byte := by
  apply wordsOf_append_replicate
  · intro w hw
    obtain ⟨b, -, rfl⟩ := List.mem_map.1 hw
    refine ⟨fun h => ?_, unbroken_padded 2 _⟩
    have hlength := length_byte b
    rw [h] at hlength
    exact absurd hlength (by decide)
  · exact fun h => hne (List.map_eq_nil_iff.1 h)

section

variable (address : Int)

theorem front_lineText (bytes : List UInt8) :
    Row.front (lineText address bytes).toList = (Hex.padded 3 address).toList := by
  have hfront : ∀ c ∈ (Hex.padded 3 address).toList, decide (c ≠ ' ') = true := by
    intro c hc
    exact decide_eq_true (ne_of_mem_of_not_mem hc (unbroken_padded 3 address).1)
  unfold Row.front
  rw [toList_lineText, List.takeWhile_append_of_pos hfront, List.takeWhile_cons_of_neg (by simp),
    List.append_nil]

theorem field_lineText (hne : bytes ≠ []) (hlen : bytes.length ≤ 16) :
    Row.field (lineText address bytes).toList =
      (Column.padRight hexColumns (" ".intercalate (bytes.map Hex.byte))).toList := by
  have hwidth := length_padRight_bytes hne hlen
  unfold Row.field
  rw [front_lineText, toList_lineText, List.drop_length_add_append]
  exact List.take_left' hwidth

theorem margin_lineText (hne : bytes ≠ []) (hlen : bytes.length ≤ 16) :
    Row.margin (lineText address bytes).toList = bytes.map asciiChar := by
  have hwidth := length_padRight_bytes hne hlen
  rw [← String.length_toList] at hwidth
  unfold Row.margin
  rw [front_lineText, toList_lineText, Nat.add_assoc, Nat.add_assoc, List.drop_length_add_append]
  generalize (Column.padRight hexColumns _).toList = columns at hwidth
  show List.drop (hexColumns + 2) (columns ++ _) = _
  rw [← hwidth, List.drop_length_add_append]
  rfl

/-- A line is read back. -/
theorem ofLine?_lineText (hne : bytes ≠ []) (hlen : bytes.length ≤ 16) :
    Row.ofLine? (lineText address bytes) = some ⟨address, bytes, bytes.map asciiChar⟩ := by
  unfold Row.ofLine?
  rw [front_lineText, field_lineText address hne hlen, margin_lineText address hne hlen,
    Numeral.read?_padded, String.ofList_toList, wordsOf_bytes hne, mapM_byte?]
  rfl

end

/-! ## Rows of a range -/

/-- Row `q` of a range of `n` cells. -/
def row (m : Memory) (start n q : Nat) : Row :=
  let bytes := m.cellsFrom (start + 16 * q) (min 16 (n - 16 * q))
  ⟨start + 16 * q, bytes, bytes.map asciiChar⟩

def rows (m : Memory) (start n : Nat) : List Row :=
  (List.range ((n + 15) / 16)).map (m.row start n)

theorem length_rows (m : Memory) (start n : Nat) : (m.rows start n).length = (n + 15) / 16 := by
  rw [rows, List.length_map, List.length_range]

theorem bytes_rows_take (m : Memory) (start n k : Nat) :
    ((List.range k).map (m.row start n)).flatMap Row.bytes =
      m.cellsFrom start (min (16 * k) n) := by
  induction k with
  | zero => simp [cellsFrom]
  | succ k ih =>
    rw [List.range_succ, List.map_append, List.flatMap_append, ih, List.map_singleton,
      List.flatMap_singleton]
    show _ ++ m.cellsFrom (start + 16 * k) (min 16 (n - 16 * k)) = _
    by_cases hk : 16 * k ≤ n
    · rw [Nat.min_eq_left hk, ← cellsFrom_add]
      exact congrArg (m.cellsFrom start) (by omega)
    · have hnone : min 16 (n - 16 * k) = 0 := by omega
      have hall : min (16 * (k + 1)) n = min (16 * k) n := by omega
      rw [hnone, hall]
      exact List.append_nil _

/-- The rows hold the bytes of the range, in order. -/
theorem bytes_rows (m : Memory) (start n : Nat) :
    (m.rows start n).flatMap Row.bytes = m.cellsFrom start n := by
  unfold rows
  rw [bytes_rows_take]
  exact congrArg (m.cellsFrom start) (by omega)

theorem getElem?_rows (m : Memory) {start n q : Nat} (hq : q < (n + 15) / 16) :
    (m.rows start n)[q]? = some (m.row start n q) := by
  rw [rows, List.getElem?_map, List.getElem?_range hq]
  rfl

theorem slice_eq {start stop : Int} (h0 : 0 ≤ start) (h0' : 0 ≤ stop) (hstart : start ≤ m.size)
    (hstop : stop ≤ m.size) :
    m.slice start stop = m.cellsFrom start.toNat (stop.toNat - start.toNat) := by
  have hbound {k : Int} (hk : 0 ≤ k) (hle : k ≤ m.size) : m.bound k = k.toNat := by
    unfold bound
    rw [if_neg (Int.not_lt.2 hk)]
    omega
  unfold slice
  rw [hbound h0 hstart, hbound h0' hstop, toList_extract (by omega)]

/-- The end of the range that a dump shows. -/
def dumpEnd (m : Memory) (start length : Int) : Int :=
  min (start + length) m.size

theorem dumpLines_eq {start length : Int} (h0 : 0 ≤ start) (hstart : start ≤ m.size)
    (hlength : 0 ≤ length) : m.dumpLines start length =
      (m.rows start.toNat (m.dumpEnd start length - start).toNat).map
        fun r => lineText r.address r.bytes := by
  have hbounds : start ≤ m.dumpEnd start length ∧ m.dumpEnd start length ≤ m.size := by
    unfold dumpEnd
    omega
  unfold dumpLines rows
  rw [← dumpEnd, List.map_map]
  generalize m.dumpEnd start length = stop at hbounds
  have hcount : lineCount (stop - start) = ((stop - start).toNat + 15) / 16 := by
    unfold lineCount
    omega
  show (List.range (lineCount (stop - start))).map _ = _
  rw [hcount]
  refine List.map_congr_left fun q hq => ?_
  have hin := List.mem_range.1 hq
  have haddress : start + 16 * (q : Int) = start.toNat + 16 * q := by omega
  have hslice : m.slice (start + 16 * q) (min (start + 16 * q + 16) stop) =
      m.cellsFrom (start.toNat + 16 * q) (min 16 ((stop - start).toNat - 16 * q)) := by
    rw [slice_eq (by omega) (by omega) (by omega) (by omega)]
    exact congrArg₂ m.cellsFrom (by omega) (by omega)
  show lineText (start + 16 * q) (m.slice (start + 16 * q) (min (start + 16 * q + 16) stop)) = _
  rw [hslice, haddress]
  rfl

/-! ## The text of a dump -/

/-- The character of a byte, without the arithmetic of bytes. -/
theorem asciiChar_eq (b : UInt8) : asciiChar b =
    if 0x20 ≤ b.toNat ∧ b.toNat ≤ 0x7E then Char.ofNat b.toNat else '.' := by
  have hprintable : (0x20 ≤ b ∧ b < 0x7F) ↔ 0x20 ≤ b.toNat ∧ b.toNat ≤ 0x7E := by
    rw [UInt8.le_iff_toNat_le, UInt8.lt_iff_toNat_lt]
    exact and_congr_right' Nat.lt_succ_iff
  unfold asciiChar
  rw [if_congr hprintable rfl rfl]

theorem asciiChar_ne_newline (b : UInt8) : asciiChar b ≠ '\n' := by
  have hall : ∀ n < 256, (if 0x20 ≤ n ∧ n ≤ 0x7E then Char.ofNat n else '.') ≠ '\n' := by
    decide +kernel
  rw [asciiChar_eq]
  exact hall b.toNat b.toNat_lt

theorem newline_notMem_lineText (address : Int) (bytes : List UInt8) :
    '\n' ∉ (lineText address bytes).toList := by
  have hbytes : '\n' ∉ (" ".intercalate (bytes.map Hex.byte)).toList := by
    apply newline_notMem_intercalate
    intro w hw
    obtain ⟨b, -, rfl⟩ := List.mem_map.1 hw
    exact unbroken_padded 2 _
  have htext : '\n' ∉ bytes.map asciiChar := by
    intro hmem
    obtain ⟨b, -, hb⟩ := List.mem_map.1 hmem
    exact asciiChar_ne_newline b hb
  have hblank : '\n' ≠ ' ' := by decide
  rw [toList_lineText]
  simp only [Column.padRight, String.toList_append, String.toList_ofList, List.mem_append,
    List.mem_cons, List.mem_replicate, hblank, false_or, and_false, or_false, not_or]
  exact ⟨(unbroken_padded 3 address).2, hbytes, htext⟩

theorem lineText_ne_empty (address : Int) (bytes : List UInt8) : lineText address bytes ≠ "" := by
  intro h
  have hlist := congrArg String.toList h
  rw [toList_lineText] at hlist
  simp at hlist

/-! ## All lines -/

theorem length_row (m : Memory) (start : Nat) {n q : Nat} (hq : q < (n + 15) / 16) :
    (m.row start n q).bytes ≠ [] ∧ (m.row start n q).bytes.length ≤ 16 ∧
      (q + 1 < (n + 15) / 16 → (m.row start n q).bytes.length = 16) := by
  have hlength : (m.row start n q).bytes.length = min 16 (n - 16 * q) := length_cellsFrom m _ _
  refine ⟨List.ne_nil_of_length_pos ?_, ?_, ?_⟩
  · rw [hlength]
    omega
  · rw [hlength]
    omega
  · rw [hlength]
    omega

theorem rows_eq_iff {m' : Memory} {start n : Nat} : m'.rows start n = m.rows start n ↔
    ∀ k < n, m'.cell (start + k) = m.cell (start + k) := by
  constructor
  · intro h
    rw [← cellsFrom_eq_iff, ← bytes_rows, ← bytes_rows, h]
  · intro h
    refine List.map_congr_left fun q hq => ?_
    have hcells : m'.cellsFrom (start + 16 * q) (min 16 (n - 16 * q)) =
        m.cellsFrom (start + 16 * q) (min 16 (n - 16 * q)) := by
      rw [cellsFrom_eq_iff]
      intro j hj
      rw [Nat.add_assoc]
      exact h _ (by omega)
    unfold row
    rw [hcells]

/-- Line `q` of a dump from `start` on shows the row. -/
structure Row.ShownBy (start : Int) (q : Nat) (line : String) (r : Row) : Prop where
  reads : ofLine? line = some r
  address_eq : r.address = start + 16 * q
  front_eq : front line.toList = (Hex.padded 3 r.address).toList
  front_wide : 3 ≤ (front line.toList).length
  text_eq : r.text = r.bytes.map fun b =>
    if 0x20 ≤ b.toNat ∧ b.toNat ≤ 0x7E then Char.ofNat b.toNat else '.'

theorem length_padded (w : Nat) (n : Nat) : w ≤ (Hex.padded w n).toList.length := by
  rw [Hex.toList_padded, if_neg (by omega), Hex.length_zeroPad]
  exact Nat.le_max_left _ _

theorem row_shownBy (m : Memory) (start : Nat) {n q : Nat} (hq : q < (n + 15) / 16) :
    (m.row start n q).ShownBy start q
      (lineText (m.row start n q).address (m.row start n q).bytes) := by
  obtain ⟨hne, hlen, -⟩ := length_row m start hq
  refine ⟨ofLine?_lineText _ hne hlen, rfl, front_lineText _ _, ?_, ?_⟩
  · rw [front_lineText]
    exact length_padded 3 (start + 16 * q)
  · exact List.map_congr_left fun b _ => asciiChar_eq b

theorem map_ok_bytes_rows {start : Int} (length : Int) (h0 : 0 ≤ start) (hstart : start ≤ m.size) :
    ((m.rows start.toNat (m.dumpEnd start length - start).toNat).flatMap Row.bytes).map .ok =
      (List.range (m.dumpEnd start length - start).toNat).map fun (k : Nat) =>
        m.read8 (start + k) := by
  have hend : m.dumpEnd start length ≤ m.size := Int.min_le_right _ _
  rw [bytes_rows, map_ok_cellsFrom h0 (by omega)]

section

variable {start length : Int} (h0 : 0 ≤ start) (hstart : start ≤ m.size) (hlength : 0 ≤ length)

include h0 hstart hlength

theorem linesOf_dump : linesOf (m.dump start length) =
    (m.rows start.toNat (m.dumpEnd start length - start).toNat).map
      fun r => lineText r.address r.bytes := by
  unfold dump
  rw [dumpLines_eq h0 hstart hlength]
  apply linesOf_intercalate
  intro l hl
  obtain ⟨r, -, rfl⟩ := List.mem_map.1 hl
  exact ⟨lineText_ne_empty _ _, newline_notMem_lineText _ _⟩

/-- The rows are what the lines show, so the dump tells them. -/
theorem map_ofLine?_dump : (linesOf (m.dump start length)).map Row.ofLine? =
    (m.rows start.toNat (m.dumpEnd start length - start).toNat).map some := by
  rw [linesOf_dump h0 hstart hlength, List.map_map]
  refine List.map_congr_left fun r hr => ?_
  obtain ⟨q, hq, rfl⟩ := List.mem_map.1 hr
  exact (row_shownBy m _ (List.mem_range.1 hq)).reads

theorem dump_eq_iff_rows {m' : Memory} (hsize : m'.size = m.size) :
    m'.dump start length = m.dump start length ↔
      m'.rows start.toNat (m.dumpEnd start length - start).toNat =
        m.rows start.toNat (m.dumpEnd start length - start).toNat := by
  have hend : m'.dumpEnd start length = m.dumpEnd start length := by
    unfold dumpEnd
    rw [hsize]
  have hstart' : start ≤ m'.size := by rwa [hsize]
  constructor
  · intro h
    have hrows := map_ofLine?_dump h0 hstart' hlength
    rw [h, map_ofLine?_dump h0 hstart hlength, hend] at hrows
    exact (List.map_injective_iff.2 (Option.some_injective Row) hrows).symm
  · intro h
    unfold dump
    rw [dumpLines_eq h0 hstart' hlength, dumpLines_eq h0 hstart hlength, hend, h]

/-- A dump tells the bytes of its range, and no more. -/
theorem dump_eq_iff {m' : Memory} (hsize : m'.size = m.size) :
    m'.dump start length = m.dump start length ↔
      ∀ a, start ≤ a → a < m.dumpEnd start length → m'.read8 a = m.read8 a := by
  have hend : m.dumpEnd start length ≤ m.size := Int.min_le_right _ _
  have hread {k : Nat} (hk : k < m.size) : m'.read8 k = m.read8 k ↔ m'.cell k = m.cell k := by
    rw [read8_natCast, read8_natCast, hsize, if_pos hk, if_pos hk, Except.ok.injEq]
  rw [dump_eq_iff_rows h0 hstart hlength hsize, rows_eq_iff]
  constructor
  · intro h a hlow hhigh
    obtain ⟨k, rfl⟩ := Int.eq_ofNat_of_zero_le (Int.le_trans h0 hlow)
    have hcell := h (k - start.toNat) (by omega)
    rw [show start.toNat + (k - start.toNat) = k by omega] at hcell
    exact (hread (by omega)).2 hcell
  · intro h k hk
    have hin : start.toNat + k < m.size := by omega
    exact (hread hin).1 (h _ (by omega) (by omega))

theorem dump_eq_empty_iff : m.dump start length = "" ↔ m.dumpEnd start length = start := by
  have hend : start ≤ m.dumpEnd start length := by
    unfold dumpEnd
    omega
  constructor
  · intro h
    have hlines := congrArg List.length (linesOf_dump h0 hstart hlength)
    rw [h, List.length_map, length_rows] at hlines
    have hnone : (linesOf "").length = 0 := rfl
    omega
  · intro h
    unfold dump
    rw [dumpLines_eq h0 hstart hlength, h, Int.sub_self]
    rfl

theorem exists_shownBy {q : Nat} {line : String}
    (h : (linesOf (m.dump start length))[q]? = some line) :
    ∃ r, (m.rows start.toNat (m.dumpEnd start length - start).toNat)[q]? = some r ∧
      r.ShownBy start q line ∧
      (q + 1 < (linesOf (m.dump start length)).length → r.bytes.length = 16) := by
  rw [linesOf_dump h0 hstart hlength] at h ⊢
  have hq := (List.getElem?_eq_some_iff.1 h).1
  rw [List.length_map, length_rows] at hq
  rw [List.getElem?_map, getElem?_rows m hq] at h
  obtain rfl := Option.some.inj h
  refine ⟨_, getElem?_rows m hq, ?_, ?_⟩
  · have hshown := row_shownBy m start.toNat hq
    rwa [Int.toNat_of_nonneg h0] at hshown
  · rw [List.length_map, length_rows]
    exact (length_row m _ hq).2.2

end

/-- A dump of any range can be read back. There is a line for every sixteen bytes, and no text for
none. A line begins with its address in at least three digits; its bytes, sixteen of them except in
the last line, follow in a field of fixed width, and behind it their characters, with a dot for what
is not printable. The bytes that are read from all lines are those of the range, in order. So
memories of one size have the same dump of a range just when they agree on it. -/
theorem dump_reads_back {start length : Int} (h0 : 0 ≤ start) (hstart : start ≤ m.size)
    (hlength : 0 ≤ length) :
    ∃ stop lines, stop = min (start + length) m.size ∧ lines = linesOf (m.dump start length) ∧
      lines.length = ((stop - start).toNat + 15) / 16 ∧
      (m.dump start length = "" ↔ stop = start) ∧
      (∃ rows : List Row, rows.length = lines.length ∧
        (∀ q line, lines[q]? = some line → ∃ r, rows[q]? = some r ∧ r.ShownBy start q line ∧
          (q + 1 < lines.length → r.bytes.length = 16)) ∧
        (rows.flatMap Row.bytes).map .ok = (List.range (stop - start).toNat).map fun (k : Nat) =>
          m.read8 (start + k)) ∧
      ∀ m' : Memory, m'.size = m.size → (m'.dump start length = m.dump start length ↔
        ∀ a, start ≤ a → a < stop → m'.read8 a = m.read8 a) := by
  have hcount : (linesOf (m.dump start length)).length =
      ((m.dumpEnd start length - start).toNat + 15) / 16 := by
    rw [linesOf_dump h0 hstart hlength, List.length_map, length_rows]
  refine ⟨m.dumpEnd start length, _, rfl, rfl, hcount, dump_eq_empty_iff h0 hstart hlength, ?_,
    fun m' => dump_eq_iff h0 hstart hlength⟩
  refine ⟨m.rows start.toNat (m.dumpEnd start length - start).toNat, ?_, ?_, ?_⟩
  · rw [hcount, length_rows]
  · exact fun q line => exists_shownBy h0 hstart hlength
  · exact map_ok_bytes_rows length h0 hstart

/-- Digits and blanks as bytes, so that the text looks like more of them. -/
def hexlike : Memory :=
  ⟨#[0, 0x34, 0x31, 0x20, 0x20, 0x34, 0x32, 0x20, 0x20, 0x20, 0x20, 0x20, 0x20, 0x20, 0x20, 0x0A,
    0x7F, 0x33, 0x39]⟩

theorem dump_reads_back_hexlike :
    0 ≤ (1 : Int) ∧ (1 : Int) ≤ hexlike.size ∧ 0 ≤ (100 : Int) ∧
      hexlike.dump 1 100 =
        "001  34 31 20 20 34 32 20 20 20 20 20 20 20 20 0A 7F  41  42        ..\n" ++
        "011  33 39                                            39" ∧
      ∀ m' : Memory, m'.size = 19 → m'.dump 1 100 = hexlike.dump 1 100 →
        m'.read8 18 = .ok 0x39 := by
  have hin : 0 ≤ (1 : Int) ∧ (1 : Int) ≤ hexlike.size ∧ 0 ≤ (100 : Int) := by decide
  obtain ⟨stop, lines, hstop, hlines, -, -, -, hagree⟩ := dump_reads_back hin.1 hin.2.1 hin.2.2
  refine ⟨by decide, by decide, by decide, by decide +kernel, fun m' hsize h => ?_⟩
  have hend : (18 : Int) < stop := by
    rw [hstop]
    decide
  exact (hagree m' hsize).1 h 18 (by decide) hend

end Chip8.Memory
