import Mathlib.Data.List.TakeWhile
import Mathlib.Tactic.SplitIfs
import Xkbcommon.Lib.Hex

/-!
# Numbers in text

`parse_dec_to_uint32_t`, `parse_dec_to_uint64_t` and their hexadecimal counterparts, from
`src/utils-numbers.h`. They read digits from the first `len` bytes of a buffer and look for an
overflow before a digit is added, so that no number wraps around.

A buffer is the list of the bytes that may be read, and a read beyond it has no result. The
parsers have one for every buffer that goes up to the length or has a byte that is no digit
(`Xkbcommon.number_parsers_exact`), so they read no byte that such a buffer lacks. Where a text is
given with its length, and is no longer than an `int` can count, `Xkbcommon.parseDec` is used
instead (`Xkbcommon.parseDecTo_eq`).
-/

namespace Xkbcommon

open List

variable {s : List UInt8}

/-- `is_digit`. -/
def isDigit (c : UInt8) : Bool := decide (0x30 ≤ c) && decide (c ≤ 0x39)

/-- `is_xdigit`. -/
def isXdigit (c : UInt8) : Bool := (Hex.ofByte c).isSome

/-- An unsigned number as an `int`. -/
def intOf (n : ℕ) : ℤ := (BitVec.ofNat 32 n).toInt

/-- The loop of a parser for numbers of `w` bits, with `left` bytes of the buffer to go, and what
is returned after it: the number of digits, or -1 if the loop stopped before a digit, and the
number. The loop stops where there is no digit and where there is not room for `more`. -/
def parseDigits (w base : ℕ) (digit : UInt8 → ℕ) (more : ℕ → ℕ → Bool) (isDigit : UInt8 → Bool) :
    ℕ → List UInt8 → ℕ → ℕ → Option (ℤ × ℕ)
  | 0, _, i, result => some (intOf i, result)
  | _ + 1, [], _, _ => none
  | left + 1, c :: s, i, result =>
    if digit c < base ∧ more result (digit c) = true then
      parseDigits w base digit more isDigit left s (i + 1) ((result * base + digit c) % 2 ^ w)
    else some (if isDigit c then -1 else intOf i, result)

/-- The value of a decimal digit: the difference to `'0'`, as an `unsigned char`. -/
def decDigit (c : UInt8) : ℕ := (c - 0x30).toNat

/-- `digits__`. -/
def hexDigit (c : UInt8) : ℕ := (Hex.ofByte c).getD 0xff

/-- `MAKE_PARSE_DEC_TO`, for a type of `w` bits. -/
def parseDecTo (w : ℕ) (s : List UInt8) (len : ℕ) : Option (ℤ × ℕ) :=
  parseDigits w 10 decDigit
    (fun result d => decide (result ≤ (2 ^ w - 1) / 10 ∧ result * 10 % 2 ^ w ≤ 2 ^ w - 1 - d))
    (fun c => decide (decDigit c < 10)) len s 0 0

/-- `MAKE_PARSE_HEX_TO`, for a type of `w` bits. -/
def parseHexTo (w : ℕ) (s : List UInt8) (len : ℕ) : Option (ℤ × ℕ) :=
  parseDigits w 16 hexDigit (fun result _ => decide (result ≤ (2 ^ w - 1) >>> 4)) isXdigit len s 0 0

/-- `parse_dec_to_uint32_t`. -/
def parseDecToUint32T : List UInt8 → ℕ → Option (ℤ × ℕ) := parseDecTo 32

/-- `parse_dec_to_uint64_t`. -/
def parseDecToUint64T : List UInt8 → ℕ → Option (ℤ × ℕ) := parseDecTo 64

/-- `parse_hex_to_uint32_t`. -/
def parseHexToUint32T : List UInt8 → ℕ → Option (ℤ × ℕ) := parseHexTo 32

/-- `parse_hex_to_uint64_t`. -/
def parseHexToUint64T : List UInt8 → ℕ → Option (ℤ × ℕ) := parseHexTo 64

/-- The loop of the decimal parsers on a whole text: the digits read, their value, and the rest. -/
def parseDecLoop (max : ℕ) : List UInt8 → ℕ → ℕ → ℕ × ℕ × List UInt8
  | [], count, result => (count, result, [])
  | c :: s, count, result =>
    if decDigit c < 10 ∧ result ≤ max / 10 ∧ result * 10 ≤ max - decDigit c then
      parseDecLoop max s (count + 1) (result * 10 + decDigit c)
    else (count, result, c :: s)

/-- `parse_dec_to_uint32_t` and `parse_dec_to_uint64_t` on a whole text: the number of digits and
their value, `none` on an overflow. -/
def parseDec (max : ℕ) (s : List UInt8) : Option (ℕ × ℕ) :=
  match parseDecLoop max s 0 0 with
  | (count, result, c :: _) => if isDigit c then none else some (count, result)
  | (count, result, []) => some (count, result)

/-! ### The value of digits -/

/-- The number that digits give after the number `n`, the most significant one first. -/
def digitsFrom (base : ℕ) (digit : UInt8 → ℕ) (n : ℕ) (s : List UInt8) : ℕ :=
  s.foldl (fun n c => n * base + digit c) n

theorem le_digitsFrom {base : ℕ} (hbase : 0 < base) (digit : UInt8 → ℕ) (n : ℕ) :
    n ≤ digitsFrom base digit n s := by
  induction s generalizing n with
  | nil => exact le_rfl
  | cons c s ih =>
    calc n ≤ n * base := Nat.le_mul_of_pos_right n hbase
      _ ≤ n * base + digit c := Nat.le_add_right _ _
      _ ≤ digitsFrom base digit n (c :: s) := ih _

/-- **A parser is exact** for numbers of `w` bits: it gives the length and the value of the
longest prefix of digits, if the value fits, and otherwise -1. The buffer goes up to the length
or has a byte that is no digit. -/
def ParsesExactly (w base : ℕ) (isDigit : UInt8 → Bool) (digit : UInt8 → ℕ)
    (parse : List UInt8 → ℕ → Option (ℤ × ℕ)) : Prop :=
  ∀ (s : List UInt8) (len : ℕ), len < 2 ^ 31 → (len ≤ s.length ∨ ∃ c ∈ s, isDigit c = false) →
    let digits := (s.take len).takeWhile isDigit
    let value := digitsFrom base digit 0 digits
    ∃ out, parse s len = some (if value < 2 ^ w then (digits.length : ℤ) else -1, out) ∧
      (value < 2 ^ w → out = value)

theorem intOf_eq {n : ℕ} (h : n < 2 ^ 31) : intOf n = n := by
  rw [intOf, BitVec.toInt_eq_toNat_of_lt, BitVec.toNat_ofNat, Nat.mod_eq_of_lt (by omega)]
  rw [BitVec.toNat_ofNat]
  omega

section Loop

variable {w base : ℕ} {digit : UInt8 → ℕ} {more : ℕ → ℕ → Bool} {isDigit : UInt8 → Bool}

/-- The loop, from a number that fits. -/
theorem parseDigits_spec (hbase : 0 < base) (hdigit : ∀ c, isDigit c = true ↔ digit c < base)
    (hmore : ∀ result d, result < 2 ^ w → d < base →
      (more result d = true ↔ result * base + d < 2 ^ w))
    {left : ℕ} (hs : left ≤ s.length ∨ ∃ c ∈ s, isDigit c = false) (i : ℕ) {result : ℕ}
    (hresult : result < 2 ^ w) {digits : List UInt8}
    (hdigits : (s.take left).takeWhile isDigit = digits) :
    ∃ out, parseDigits w base digit more isDigit left s i result =
        some (if digitsFrom base digit result digits < 2 ^ w then intOf (i + digits.length) else -1,
          out) ∧
      (digitsFrom base digit result digits < 2 ^ w →
        out = digitsFrom base digit result digits) := by
  subst hdigits
  induction left generalizing s i result with
  | zero =>
    exact ⟨result, by simp [parseDigits, digitsFrom, hresult], fun _ => by simp [digitsFrom]⟩
  | succ left ih =>
    match s, hs with
    | [], hs => simp at hs
    | c :: s, hs =>
      rw [take_succ_cons, parseDigits]
      by_cases hc : isDigit c = true
      · have hlt := (hdigit c).mp hc
        rw [takeWhile_cons_of_pos hc]
        by_cases hfits : result * base + digit c < 2 ^ w
        · have hs' : left ≤ s.length ∨ ∃ c ∈ s, isDigit c = false := by
            refine hs.imp Nat.le_of_succ_le_succ ?_
            rintro ⟨d, hd, hnot⟩
            rcases mem_cons.mp hd with rfl | hd
            · cases hc.symm.trans hnot
            · exact ⟨d, hd, hnot⟩
          have h := ih hs' (i + 1) hfits
          rw [Nat.add_right_comm i 1] at h
          rwa [if_pos ⟨hlt, (hmore _ _ hresult hlt).mpr hfits⟩, Nat.mod_eq_of_lt hfits]
        · -- the digit is not added, and the value is at least as large
          have hnot :
              ¬digitsFrom base digit result (c :: (s.take left).takeWhile isDigit) < 2 ^ w :=
            fun h => hfits ((le_digitsFrom hbase digit _).trans_lt h)
          rw [if_neg fun h => hfits ((hmore _ _ hresult hlt).mp h.2), if_pos hc, if_neg hnot]
          exact ⟨result, rfl, fun h => absurd h hnot⟩
      · rw [takeWhile_cons_of_neg hc, if_neg fun h => hc ((hdigit c).mpr h.1), if_neg hc]
        exact ⟨result, by simp [digitsFrom, hresult], fun _ => rfl⟩

theorem parsesExactly_parseDigits (hbase : 0 < base)
    (hdigit : ∀ c, isDigit c = true ↔ digit c < base)
    (hmore : ∀ result d, result < 2 ^ w → d < base →
      (more result d = true ↔ result * base + d < 2 ^ w)) :
    ParsesExactly w base isDigit digit fun s len =>
      parseDigits w base digit more isDigit len s 0 0 := by
  intro s len hlen hs
  have hle : ((s.take len).takeWhile isDigit).length ≤ len :=
    (List.IsPrefix.length_le <| takeWhile_prefix isDigit).trans (length_take_le len s)
  have h := parseDigits_spec hbase hdigit hmore hs 0 (Nat.two_pow_pos w) rfl
  rwa [zero_add, intOf_eq (hle.trans_lt hlen)] at h

end Loop

section Bases

theorem isDigit_eq : isDigit = fun c => decide (decDigit c < 10) := by
  funext c
  have := c.toNat_lt
  rw [isDigit, ← Bool.decide_and, decide_eq_decide, decDigit]
  simp only [UInt8.le_iff_toNat_le, UInt8.toNat_sub, UInt8.reduceToNat]
  omega

variable {w : ℕ} (hw : 4 ≤ w)

include hw

theorem parsesExactly_dec : ParsesExactly w 10 isDigit decDigit (parseDecTo w) := by
  rw [isDigit_eq]
  refine parsesExactly_parseDigits (by decide) (fun c => decide_eq_true_iff) ?_
  intro result d hresult hd
  have hle : 2 ^ 4 ≤ 2 ^ w := Nat.pow_le_pow_right (by decide) hw
  rw [decide_eq_true_iff]
  by_cases hten : result * 10 < 2 ^ w
  · rw [Nat.mod_eq_of_lt hten]
    omega
  · omega

theorem parsesExactly_hex : ParsesExactly w 16 isXdigit hexDigit (parseHexTo w) := by
  refine parsesExactly_parseDigits (by decide) (fun c => ?_) ?_
  · unfold isXdigit hexDigit Hex.ofByte
    simp only [UInt8.le_iff_toNat_le, UInt8.reduceToNat]
    split_ifs
    · simp
      omega
    · simp
      omega
    · simp
      omega
    · simp
  · intro result d hresult hd
    obtain ⟨v, rfl⟩ := Nat.exists_eq_add_of_le hw
    have := Nat.two_pow_pos v
    rw [decide_eq_true_iff, Nat.shiftRight_eq_div_pow, Nat.pow_add]
    rw [Nat.pow_add] at hresult
    omega

/-- **The value of the digits at the start of a text**, if it fits. -/
theorem parseDec_eq (s : List UInt8) :
    parseDec (2 ^ w - 1) s =
      if digitsFrom 10 decDigit 0 (s.takeWhile isDigit) < 2 ^ w then
        some ((s.takeWhile isDigit).length, digitsFrom 10 decDigit 0 (s.takeWhile isDigit))
      else none := by
  have hle : 2 ^ 4 ≤ 2 ^ w := Nat.pow_le_pow_right (by decide) hw
  have hloop : ∀ count result, result < 2 ^ w →
      (match parseDecLoop (2 ^ w - 1) s count result with
        | (count, result, c :: _) => if isDigit c then none else some (count, result)
        | (count, result, []) => some (count, result)) =
      if digitsFrom 10 decDigit result (s.takeWhile isDigit) < 2 ^ w then
        some (count + (s.takeWhile isDigit).length,
          digitsFrom 10 decDigit result (s.takeWhile isDigit))
      else none := by
    induction s with
    | nil =>
      intro count result h
      simp [parseDecLoop, digitsFrom, h]
    | cons c s ih =>
      intro count result h
      have hdigit : isDigit c = decide (decDigit c < 10) := congrFun isDigit_eq c
      rw [parseDecLoop]
      by_cases hc : decDigit c < 10
      · rw [takeWhile_cons_of_pos (by rw [hdigit, decide_eq_true hc]), digitsFrom, foldl_cons,
          ← digitsFrom, length_cons]
        by_cases hfits : result * 10 + decDigit c < 2 ^ w
        · rw [if_pos ⟨hc, by omega, by omega⟩, ih _ _ hfits, Nat.add_assoc, Nat.add_comm 1]
        · -- the digits that follow do not make the number smaller
          have hmore := le_digitsFrom (s := s.takeWhile isDigit) (show 0 < 10 by decide) decDigit
            (result * 10 + decDigit c)
          rw [if_neg (by omega), if_neg (by omega)]
          simp [hdigit, hc]
      · rw [takeWhile_cons_of_neg (by simp [hdigit, hc]), if_neg fun h => hc h.1]
        simp [hdigit, hc, digitsFrom, h]
  rw [parseDec, hloop 0 0 (Nat.two_pow_pos w), Nat.zero_add]

/-- The parser of `src/utils-numbers.h` on a whole text. -/
theorem parseDecTo_eq (h : s.length < 2 ^ 31) :
    ∃ out, parseDecTo w s s.length =
        some (((parseDec (2 ^ w - 1) s).map fun r => (r.1 : ℤ)).getD (-1), out) ∧
      ∀ r ∈ parseDec (2 ^ w - 1) s, out = r.2 := by
  obtain ⟨out, hparse, hout⟩ := parsesExactly_dec hw s s.length h (.inl le_rfl)
  rw [take_length] at hparse hout
  refine ⟨out, ?_, ?_⟩
  · rw [hparse, parseDec_eq hw]
    split_ifs
    · rfl
    · rfl
  · intro r hr
    rw [parseDec_eq hw] at hr
    split_ifs at hr with hlt
    · obtain rfl := Option.some.inj hr
      exact hout hlt
    · cases hr

end Bases

/-- **The number parsers are exact**, in both bases and for both types. -/
theorem number_parsers_exact :
    ParsesExactly 32 10 isDigit decDigit parseDecToUint32T ∧
      ParsesExactly 64 10 isDigit decDigit parseDecToUint64T ∧
      ParsesExactly 32 16 isXdigit hexDigit parseHexToUint32T ∧
      ParsesExactly 64 16 isXdigit hexDigit parseHexToUint64T :=
  ⟨parsesExactly_dec (by decide), parsesExactly_dec (by decide), parsesExactly_hex (by decide),
    parsesExactly_hex (by decide)⟩

end Xkbcommon
