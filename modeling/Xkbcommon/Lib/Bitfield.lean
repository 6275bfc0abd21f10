import Mathlib.Data.BitVec

/-!
# A signed bit-field above a few low bits

A C structure may pack a small unsigned field and a signed one into one word. The
signed field has fewer bits than the word, so storing a value keeps its low bits and
reading it back extends the sign: the value survives exactly when it fits the field
(`Bitfield.high_pack_eq_iff`), and otherwise another value with the same low bits comes
back (`Bitfield.setWidth_high_pack`).
-/

namespace Bitfield

open BitVec

variable {w n : ℕ}

/-- A word with `lo` in its `n` low bits and `hi` above them. -/
def pack (n : ℕ) (hi lo : BitVec w) : BitVec w := (hi <<< n) ||| lo

/-- The signed field above the `n` low bits. -/
def high (n : ℕ) (x : BitVec w) : BitVec w := x.sshiftRight n

/-- The unsigned field in the `n` low bits. -/
def low (n : ℕ) (x : BitVec w) : BitVec w := x &&& BitVec.ofNat w (2 ^ n - 1)

variable {lo hi x : BitVec w}

theorem getLsbD_of_toNat_lt (hlo : lo.toNat < 2 ^ n) {i : ℕ} (hi : n ≤ i) :
    lo.getLsbD i = false := by
  rw [BitVec.getLsbD, Nat.testBit_lt_two_pow]
  exact hlo.trans_le (Nat.pow_le_pow_right (by decide) hi)

theorem low_pack (hlo : lo.toNat < 2 ^ n) : low n (pack n hi lo) = lo := by
  refine eq_of_getLsbD_eq fun i hw => ?_
  rw [low, getLsbD_and, pack, getLsbD_or, getLsbD_shiftLeft,
    getLsbD_ofNat, Nat.testBit_two_pow_sub_one]
  by_cases h : i < n
  · simp [h, hw]
  · simp [h, getLsbD_of_toNat_lt hlo (not_lt.mp h)]

/-- **Reading the signed field back**: its low bits, with the sign extended. -/
theorem high_pack (hn : n < w) (hlo : lo.toNat < 2 ^ n) :
    high n (pack n hi lo) = (hi.setWidth (w - n)).signExtend w := by
  refine eq_of_getLsbD_eq fun i hw => ?_
  rw [high, getLsbD_sshiftRight, pack, getLsbD_signExtend]
  simp only [not_le.mpr hw, hw, decide_false, decide_true, Bool.not_false, Bool.true_and]
  by_cases h : n + i < w
  · rw [if_pos h, if_pos (by omega), getLsbD_or, getLsbD_of_toNat_lt hlo (by omega),
      getLsbD_shiftLeft, getLsbD_setWidth, Nat.add_sub_cancel_left]
    simp [h, show i < w - n by omega]
  · rw [if_neg h, if_neg (by omega), msb_eq_getLsbD_last, msb_eq_getLsbD_last,
      getLsbD_or, getLsbD_of_toNat_lt hlo (by omega), getLsbD_shiftLeft,
      getLsbD_setWidth, show w - 1 - n = w - n - 1 by omega]
    simp [show w - 1 < w by omega, show ¬w - 1 < n by omega, show w - n - 1 < w - n by omega]

/-- The low bits of the field are those of the stored value. -/
theorem setWidth_high_pack (hn : n < w) (hlo : lo.toNat < 2 ^ n) :
    (high n (pack n hi lo)).setWidth (w - n) = hi.setWidth (w - n) := by
  rw [high_pack hn hlo]
  refine eq_of_getLsbD_eq fun i hi' => ?_
  rw [getLsbD_setWidth, getLsbD_signExtend, if_pos hi']
  simp [hi', show i < w by omega]

/-- The value of a word fits a signed field of `v` bits. -/
def Fits (v : ℕ) (d : BitVec w) : Prop := -(2 ^ v : ℕ) ≤ d.toInt * 2 ∧ d.toInt * 2 < (2 ^ v : ℕ)

instance (v : ℕ) (d : BitVec w) : Decidable (Fits v d) := by
  unfold Fits
  infer_instance

/-- **A value survives the field exactly when it fits it.** -/
theorem high_pack_eq_iff (hn : n < w) (d : BitVec w) (hlo : lo.toNat < 2 ^ n) :
    high n (pack n d lo) = d ↔ Fits (w - n) d := by
  have hint : (high n (pack n d lo)).toInt = d.toInt.bmod (2 ^ (w - n)) := by
    rw [high_pack hn hlo, toInt_signExtend_of_le (by omega), toInt_setWidth,
      toInt_eq_toNat_bmod, Int.bmod_bmod_of_dvd (Nat.pow_dvd_pow 2 (by omega))]
  rw [← toInt_inj, hint]
  constructor
  · intro h
    have hpos : 0 < 2 ^ (w - n) := Nat.two_pow_pos _
    have heven : 2 ^ (w - n) = 2 * 2 ^ (w - n - 1) := by
      rw [← Nat.pow_succ', Nat.succ_eq_add_one, Nat.sub_add_cancel (by omega)]
    have hle := Int.le_bmod (x := d.toInt) hpos
    have hlt := Int.bmod_lt (x := d.toInt) hpos
    rw [h] at hle hlt
    unfold Fits
    omega
  · rintro ⟨hlo', hhi⟩
    exact Int.bmod_eq_of_le_mul_two hlo' hhi

/-- A word is made of its two fields. -/
theorem pack_high_low : pack n (high n x) (low n x) = x := by
  refine eq_of_getLsbD_eq fun i hi => ?_
  rw [pack, low, high, getLsbD_or, getLsbD_shiftLeft, getLsbD_sshiftRight,
    getLsbD_and, getLsbD_ofNat, Nat.testBit_two_pow_sub_one]
  by_cases h : i < n
  · simp [h, hi]
  · simp [h, hi, show n + (i - n) = i by omega, show i - n < w by omega]

/-- What was read from the field fits it, whatever is stored below. -/
theorem high_pack_high (hn : n < w) (hlo : lo.toNat < 2 ^ n) :
    high n (pack n (high n x) lo) = high n x := by
  have hlow : (low n x).toNat < 2 ^ n := by
    rw [low, toNat_and, toNat_ofNat]
    have : 2 ^ n - 1 < 2 ^ n := Nat.sub_lt (Nat.two_pow_pos n) Nat.one_pos
    exact (Nat.and_le_right.trans (Nat.mod_le _ _)).trans_lt this
  have hfits : Fits (w - n) (high n x) := by
    rw [← high_pack_eq_iff hn _ hlow, pack_high_low]
  exact (high_pack_eq_iff hn _ hlo).mpr hfits

end Bitfield
