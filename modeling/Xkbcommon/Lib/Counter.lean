import Mathlib.Algebra.Order.Ring.Int
import Mathlib.Tactic.Linarith

/-!
# Narrow counters

A counter in an `int16_t` that is raised by one when something starts and lowered by one
when it ends, and that is reset to zero whenever it would not be positive. The counter
wraps around, so it says how many things there are only up to a multiple of `2 ^ 16`.
Two relations survive all of this: the counter never counts *more* than there is
(`Counter.AtMost`), whatever the wrapping does, and as long as it stays below its
maximum it never counts *less* (`Counter.AtLeast`).
-/

namespace Counter

variable {n n' : ℕ} {c : ℤ}

/-- The conversion of an integer to `int16_t`. -/
def int16 (n : ℤ) : ℤ := (n + 0x8000) % 0x10000 - 0x8000

/-- Raise a counter. -/
def raise (c : ℤ) : ℤ := int16 (c + 1)

/-- Lower a counter; it is reset when it would not be positive. -/
def lower (c : ℤ) : ℤ := if int16 (c - 1) ≤ 0 then 0 else int16 (c - 1)

/-- **A counter that counts at most `n` things.** A negative counter has wrapped, so
there are at least as many things as it took to wrap it. -/
structure AtMost (c : ℤ) (n : ℕ) : Prop where
  range : -0x8000 ≤ c ∧ c < 0x8000
  le : 0 ≤ c → c ≤ n
  le_of_neg : c < 0 → c + 0x10000 ≤ n

namespace AtMost

theorem zero (n : ℕ) : AtMost 0 n := ⟨by omega, by omega, by omega⟩

theorem mono (h : AtMost c n) (hn : n ≤ n') : AtMost c n' :=
  ⟨h.range, fun h0 => by have := h.le h0; omega, fun h0 => by have := h.le_of_neg h0; omega⟩

/-- One more thing, and the counter is raised. -/
theorem raise (h : AtMost c n) (hn : n + 1 ≤ n') : AtMost (Counter.raise c) n' := by
  obtain ⟨hr, hle, hneg⟩ := h
  unfold Counter.raise int16
  refine ⟨by omega, fun h0 => ?_, fun h0 => ?_⟩ <;> by_cases hc : 0 ≤ c <;> omega

/-- One thing less, and the counter is lowered. -/
theorem lower (h : AtMost c n) (hn : n ≤ n' + 1) : AtMost (Counter.lower c) n' := by
  obtain ⟨hr, hle, hneg⟩ := h
  unfold Counter.lower int16
  split
  · exact zero n'
  · refine ⟨by omega, fun h0 => ?_, fun h0 => ?_⟩ <;> by_cases hc : 0 ≤ c <;> omega

/-- A counter of nothing is zero. -/
theorem eq_zero (h : AtMost c 0) : c = 0 := by
  obtain ⟨hr, hle, hneg⟩ := h
  by_cases hc : 0 ≤ c <;> omega

/-- Lowering a counter of at most one thing resets it. -/
theorem lower_of_le_one (h : AtMost c n) (hn : n ≤ 1) : int16 (c - 1) ≤ 0 := by
  obtain ⟨hr, hle, hneg⟩ := h
  unfold int16
  by_cases hc : 0 ≤ c <;> omega

end AtMost

/-- **A counter that counts at least `n` things.** -/
structure AtLeast (c : ℤ) (n : ℕ) : Prop where
  le : n ≤ c
  lt : c < 0x8000

namespace AtLeast

theorem mono (h : AtLeast c n) (hn : n' ≤ n) : AtLeast c n' := ⟨by have := h.le; omega, h.lt⟩

/-- At most one more thing, and a counter below its maximum is raised. -/
theorem raise (h : AtLeast c n) (hc : c < 0x7fff) (hn : n' ≤ n + 1) :
    AtLeast (Counter.raise c) n' := by
  obtain ⟨hle, hlt⟩ := h
  unfold Counter.raise int16
  constructor <;> omega

/-- At least one thing less, and the counter is lowered. -/
theorem lower (h : AtLeast c n) (hn : n' + 1 ≤ n ∨ n' = 0) : AtLeast (Counter.lower c) n' := by
  obtain ⟨hle, hlt⟩ := h
  unfold Counter.lower int16
  split <;> constructor <;> omega

/-- A counter is not reset while there is more than one thing to count. -/
theorem lower_of_two_le (h : AtLeast c n) (hn : 2 ≤ n) : ¬int16 (c - 1) ≤ 0 := by
  obtain ⟨hle, hlt⟩ := h
  unfold int16
  omega

end AtLeast

end Counter
