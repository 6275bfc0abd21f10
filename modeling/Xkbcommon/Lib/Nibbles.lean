import Mathlib.Data.List.GetD
import Xkbcommon.Lib.Masks

/-!
# Stacks of nibbles

A word of `w` bits holds a stack of at most `w / 4` digits, the top one in the lowest
nibble. A digit is never zero, so the stack ends at the first nibble that is: the word
needs no length. `Nibbles.Packs` relates the word to the list of its digits, one bit at a
time, and the lemmas say what the usual shifts and masks do to the list – push, pop, read
a digit, and drop a digit in the middle.
-/

namespace Nibbles

open BitVec List

variable {w n d : ℕ} {word : BitVec w} {l : List ℕ}

/-- **A word holds a stack of digits.** -/
structure Packs (word : BitVec w) (l : List ℕ) : Prop where
  fits : 4 * l.length ≤ w
  digits : ∀ d ∈ l, 0 < d ∧ d < 16
  bits : ∀ i < w, word.getLsbD i = (l.getD (i / 4) 0).testBit (i % 4)

theorem Packs.getLsbD (h : Packs word l) (i : ℕ) :
    word.getLsbD i = (l.getD (i / 4) 0).testBit (i % 4) := by
  rcases lt_or_ge i w with hi | hi
  · exact h.bits i hi
  · have := h.fits
    rw [getLsbD_of_ge _ _ hi, getD_eq_default _ _ (by omega), Nat.zero_testBit]

theorem Packs.getD_lt (h : Packs word l) : l.getD n 0 < 2 ^ 4 := by
  rw [getD_eq_getElem?_getD]
  cases hd : l[n]? with
  | none => simp
  | some d => exact (h.digits d (mem_of_getElem? hd)).2

theorem packs_zero : Packs 0#w [] := ⟨Nat.zero_le w, by simp, fun i _ => by simp⟩

/-- The bits of the mask of one nibble. -/
theorem getLsbD_fifteen (hw : 4 ≤ w) {i : ℕ} : (0xf#w).getLsbD i = decide (i < 4) := by
  rw [getLsbD_ofNat, show (15 : ℕ) = 2 ^ 4 - 1 from rfl, Nat.testBit_two_pow_sub_one]
  rcases lt_or_ge i 4 with hi | hi
  · simp [hi, show i < w by omega]
  · simp [not_lt.mpr hi]

/-- Reading a digit. -/
theorem Packs.digit (h : Packs word l) (hn : 4 * (n + 1) ≤ w) :
    ((word >>> (n * 4)) &&& 0xf#w).toNat = l.getD n 0 := by
  refine Nat.eq_of_testBit_eq fun i => ?_
  rw [testBit_toNat, getLsbD_and, getLsbD_ushiftRight, h.getLsbD, getLsbD_fifteen (by omega)]
  rcases lt_or_ge i 4 with hi | hi
  · rw [show (n * 4 + i) / 4 = n by omega, show (n * 4 + i) % 4 = i by omega]
    simp [hi]
  · rw [Nat.testBit_lt_two_pow (lt_of_lt_of_le h.getD_lt (Nat.pow_le_pow_right (by omega) hi))]
    simp [not_lt.mpr hi]

/-- The word is zero if and only if the stack is empty. -/
theorem Packs.eq_zero_iff (h : Packs word l) : word = 0#w ↔ l = [] := by
  constructor
  · rintro rfl
    rcases l with - | ⟨d, l⟩
    · rfl
    · have hd := (h.digits d mem_cons_self).1
      have hfits := h.fits
      have hdigit := h.digit (n := 0) (by simp at hfits; omega)
      simp at hdigit
      omega
  · rintro rfl
    refine eq_of_getLsbD_eq fun i hi => ?_
    rw [h.getLsbD]
    simp

/-- A digit is pushed. -/
theorem Packs.push (h : Packs word l) (hd : 0 < d ∧ d < 16) (hfits : 4 * (l.length + 1) ≤ w) :
    Packs ((word <<< 4) ||| BitVec.ofNat w d) (d :: l) := by
  refine ⟨by simpa using hfits, ?_, fun i hi => ?_⟩
  · simpa using And.intro hd h.digits
  · rw [getLsbD_or, getLsbD_shiftLeft, getLsbD_ofNat]
    rcases lt_or_ge i 4 with hi' | hi'
    · rw [show i / 4 = 0 by omega, show i % 4 = i by omega]
      simp [hi, hi']
    · have hbit : d.testBit i = false :=
        Nat.testBit_lt_two_pow (lt_of_lt_of_le hd.2 (Nat.pow_le_pow_right (n := 2) (by omega) hi'))
      rw [h.getLsbD, hbit, show i / 4 = (i - 4) / 4 + 1 by omega, show i % 4 = (i - 4) % 4 by omega]
      simp [hi, not_lt.mpr hi']

/-- The top digit is popped. -/
theorem Packs.pop (h : Packs word (d :: l)) : Packs (word >>> 4) l := by
  have hfits := h.fits
  refine ⟨by simp at hfits; omega, fun d' hd' => h.digits d' (mem_cons_of_mem d hd'), ?_⟩
  intro i _
  rw [getLsbD_ushiftRight, h.getLsbD, show (4 + i) / 4 = i / 4 + 1 by omega,
    show (4 + i) % 4 = i % 4 by omega, getD_cons_succ]

/-- The `n`-th digit is dropped, those above it move down. -/
theorem Packs.eraseIdx (h : Packs word l) (hn : n < l.length) :
    Packs ((word &&& ((1#w <<< (n * 4)) - 1#w)) |||
      ((word >>> 4) &&& ~~~((1#w <<< (n * 4)) - 1#w))) (l.eraseIdx n) := by
  have hfits := h.fits
  refine ⟨?_, fun d hd => h.digits d (mem_of_mem_eraseIdx hd), fun i hi => ?_⟩
  · rw [length_eraseIdx_of_lt hn]
    omega
  · rw [getLsbD_or, getLsbD_and, getLsbD_and, getLsbD_not,
      getLsbD_ushiftRight, Masks.getLsbD_lowMask (by omega) hi, h.getLsbD, h.getLsbD]
    simp only [getD_eq_getElem?_getD, getElem?_eraseIdx]
    rcases lt_or_ge i (n * 4) with hlt | hge
    · simp [hlt, hi, show i / 4 < n by omega]
    · rw [show (4 + i) / 4 = i / 4 + 1 by omega, show (4 + i) % 4 = i % 4 by omega]
      simp [not_lt.mpr hge, hi, show ¬i / 4 < n by omega]

end Nibbles
