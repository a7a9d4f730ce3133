import Chip8.Font
import Chip8.Text.Hex

/-!
# Machine settings

The sizes and rates of a machine. `rejection?` is the first rule that a setting
breaks: the program has to start inside memory, which has at most 4096 cells;
the font has to fit below the program; the stack and the rates are positive; and
timers tick no faster than instructions run. `cadence` is the number of
instructions between two ticks.
-/

namespace Chip8

structure Config where
  memorySize : Int := 4096
  programStart : Int := 0x200
  fontStart : Int := 0
  displayWidth : Int := 64
  displayHeight : Int := 32
  stackDepth : Int := 16
  cpuHz : Int := 600
  timerHz : Int := 60
  /-- The seed of the random bytes. Without one they are those of seed 0; a program that wants
  others asks its host for entropy. -/
  seed : Option Int := none
  deriving DecidableEq, Repr

namespace Config

/-- The largest memory that addresses of twelve bits reach. -/
def maxMemory : Int := 4096

inductive Rejection where
  | memorySize (programStart memorySize : Int)
  | font (fontStart programStart : Int)
  | stackDepth (depth : Int)
  | rates
  | timerTooFast (timerHz cpuHz : Int)
  deriving DecidableEq, Repr

def Rejection.message : Rejection → String
  | memorySize start size =>
    "memory_size must be in ($" ++ Hex.padded 3 start ++ ", $" ++ Hex.padded 4 maxMemory ++
      "], got $" ++ Hex.padded 4 size
  | font first start =>
    "Font ($" ++ Hex.padded 3 first ++ "–$" ++ Hex.padded 3 (first + Font.size - 1) ++
      ") must fit below program start $" ++ Hex.padded 3 start
  | stackDepth n => s!"stack_depth must be positive, got {n}"
  | rates => "cpu_hz and timer_hz must be positive"
  | timerTooFast t c => s!"timer_hz ({t}) must not exceed cpu_hz ({c})"

def rejection? (c : Config) : Option Rejection :=
  if ¬ (c.programStart < c.memorySize ∧ c.memorySize ≤ maxMemory) then
    some (.memorySize c.programStart c.memorySize)
  else if c.fontStart < 0 ∨ c.programStart < c.fontStart + Font.size then
    some (.font c.fontStart c.programStart)
  else if c.stackDepth ≤ 0 then some (.stackDepth c.stackDepth)
  else if c.cpuHz ≤ 0 ∨ c.timerHz ≤ 0 then some .rates
  else if c.cpuHz < c.timerHz then some (.timerTooFast c.timerHz c.cpuHz)
  else none

/-- Settings that break no rule. -/
structure Accepted (c : Config) : Prop where
  start_lt : c.programStart < c.memorySize
  size_le : c.memorySize ≤ maxMemory
  font_nonneg : 0 ≤ c.fontStart
  font_le : c.fontStart + Font.size ≤ c.programStart
  depth_pos : 0 < c.stackDepth
  timer_pos : 0 < c.timerHz
  timer_le : c.timerHz ≤ c.cpuHz

theorem rejection?_eq_none_iff {c : Config} : c.rejection? = none ↔ c.Accepted := by
  constructor
  · intro h
    simp only [rejection?] at h
    repeat' split at h
    all_goals simp only [reduceCtorEq] at h
    constructor <;> omega
  · rintro ⟨h1, h2, h3, h4, h5, h6, h7⟩
    simp only [rejection?]
    repeat' split
    all_goals first | rfl | omega

theorem Accepted.memorySize_nonneg {c : Config} (h : c.Accepted) : 0 ≤ c.memorySize := by
  have := h.font_nonneg
  have := h.font_le
  have := h.start_lt
  omega

/-- Instructions between two timer ticks. -/
def cadence (c : Config) : Int :=
  c.cpuHz / c.timerHz

theorem Accepted.cadence_pos {c : Config} (h : c.Accepted) : 0 < c.cadence :=
  Int.le_ediv_of_mul_le h.timer_pos (by have := h.timer_le; omega)

end Config

end Chip8
