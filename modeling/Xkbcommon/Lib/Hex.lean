import Mathlib.Algebra.Group.Nat.Defs
import Mathlib.Data.Nat.Log

/-!
# Hexadecimal numbers as bytes

Digits and numbers in base 16, as ASCII bytes: `Hex.digits` writes a number with a fixed
number of digits, the most significant one first, and `Hex.value` reads digits back.
`Hex.width` is the number of digits that a number needs.
-/

namespace Xkbcommon.Hex

open List

variable {w n : ℕ} {upper : Bool}

/-! ### Digits -/

/-- The value of a digit, in either case. -/
def ofByte (c : UInt8) : Option ℕ :=
  if 0x30 ≤ c ∧ c ≤ 0x39 then some (c.toNat - 0x30)
  else if 0x41 ≤ c ∧ c ≤ 0x46 then some (c.toNat - 0x37)
  else if 0x61 ≤ c ∧ c ≤ 0x66 then some (c.toNat - 0x57)
  else none

/-- The digit of a value below 16. -/
def toByte (upper : Bool) (d : ℕ) : UInt8 :=
  if d < 10 then UInt8.ofNat (0x30 + d)
  else if upper then UInt8.ofNat (0x37 + d) else UInt8.ofNat (0x57 + d)

theorem ofByte_toByte {d : ℕ} (hd : d < 16) : ofByte (toByte upper d) = some d := by
  have hall : ∀ (upper : Bool) (d : Fin 16), ofByte (toByte upper d) = some d.val := by decide
  exact hall upper ⟨d, hd⟩

/-! ### Numbers -/

/-- A number with `w` digits. -/
def digits (upper : Bool) : ℕ → ℕ → List UInt8
  | 0, _ => []
  | w + 1, n => digits upper w (n / 16) ++ [toByte upper (n % 16)]

/-- The number of digits that a number needs. -/
def width (n : ℕ) : ℕ := Nat.log2 n / 4 + 1

/-- The number that digits stand for. -/
def value : List UInt8 → ℕ → Option ℕ
  | [], acc => some acc
  | c :: s, acc => (ofByte c).bind fun d => value s (acc * 16 + d)

theorem length_digits (upper : Bool) (w n : ℕ) : (digits upper w n).length = w := by
  induction w generalizing n with
  | zero => rfl
  | succ w ih => rw [digits, length_append, ih, length_singleton]

theorem value_append (s s' : List UInt8) (acc : ℕ) :
    value (s ++ s') acc = (value s acc).bind (value s') := by
  induction s generalizing acc with
  | nil => rfl
  | cons c s ih =>
    rw [cons_append, value, value]
    cases ofByte c with
    | none => rfl
    | some d => exact ih _

/-- **Digits are read back.** -/
theorem value_digits (upper : Bool) (h : n < 16 ^ w) (acc : ℕ) :
    value (digits upper w n) acc = some (acc * 16 ^ w + n) := by
  induction w generalizing n with
  | zero =>
    rw [Nat.pow_zero, Nat.lt_one_iff] at h
    subst h
    simp [digits, value]
  | succ w ih =>
    have hdiv : n / 16 < 16 ^ w := Nat.div_lt_of_lt_mul (by rwa [Nat.pow_succ, mul_comm] at h)
    rw [digits, value_append, ih hdiv, Option.bind_some, value,
      ofByte_toByte (Nat.mod_lt n (by decide)), Option.bind_some, value, Nat.pow_succ]
    congr 1
    have := Nat.div_add_mod n 16
    rw [Nat.add_mul, Nat.mul_assoc]
    omega

theorem lt_pow_width : n < 16 ^ width n := by
  have hlt : n < 2 ^ (Nat.log2 n + 1) := Nat.lt_log2_self
  have hpow : (16 : ℕ) ^ width n = 2 ^ (4 * width n) := by
    rw [Nat.pow_mul]
  rw [hpow]
  refine hlt.trans_le (Nat.pow_le_pow_right (by decide) ?_)
  unfold width
  omega

theorem width_le (hw : 0 < w) (h : n < 16 ^ w) : width n ≤ w := by
  unfold width
  by_cases hn : n = 0
  · subst hn
    exact hw
  · have hpow : (16 : ℕ) ^ w = 2 ^ (4 * w) := by
      rw [Nat.pow_mul]
    have := (Nat.log2_lt hn).mpr (hpow ▸ h)
    omega

/-- All bytes of a number are digits. -/
theorem isSome_ofByte_of_mem {c : UInt8} (h : c ∈ digits upper w n) : (ofByte c).isSome = true := by
  induction w generalizing n with
  | zero => cases h
  | succ w ih =>
    rcases mem_append.mp h with h | h
    · exact ih h
    · rw [mem_singleton.mp h, ofByte_toByte (Nat.mod_lt n (by decide))]
      rfl

end Xkbcommon.Hex
