import Mathlib.Algebra.Group.Nat.Defs
import Mathlib.Data.Nat.Notation
import Mathlib.Tactic.SplitIfs

/-!
# UTF-8

`is_valid_utf8` of `src/utf8.c`, which goes through the bytes by the table of well-formed
sequences of the Unicode standard: the leading byte says how many bytes follow and in which
range the first of them is. `utf32_to_utf8` writes one such sequence
(`Xkbcommon.isUtf8Sequence_utf32ToUtf8`), and a valid prefix of several sequences ends between
two of them (`Xkbcommon.eq_flatten_of_isValidUtf8`).
-/

namespace Xkbcommon

open List

variable {s tail text : List UInt8} {hi lo c : UInt8} {cp head shift k : ℕ}
  {texts : List (List UInt8)}

/-- How many bytes follow a leading byte, and the range of the first of them. -/
def utf8Lead (c : UInt8) : Option (ℕ × UInt8 × UInt8) :=
  if c ≤ 0x7f then some (0, 0x80, 0xbf)
  else if 0xc2 ≤ c ∧ c ≤ 0xdf then some (1, 0x80, 0xbf)
  else if c = 0xe0 then some (2, 0xa0, 0xbf)
  else if 0xe1 ≤ c ∧ c ≤ 0xec then some (2, 0x80, 0xbf)
  else if c = 0xed then some (2, 0x80, 0x9f)
  else if 0xee ≤ c ∧ c ≤ 0xef then some (2, 0x80, 0xbf)
  else if c = 0xf0 then some (3, 0x90, 0xbf)
  else if 0xf1 ≤ c ∧ c ≤ 0xf3 then some (3, 0x80, 0xbf)
  else if c = 0xf4 then some (3, 0x80, 0x8f)
  else none

/-- The loop of `is_valid_utf8`: `tail` bytes of the sequence are missing, and the first of them
is from `lo` to `hi`. -/
def validUtf8From : ℕ → UInt8 → UInt8 → List UInt8 → Bool
  | 0, _, _, [] => true
  | _ + 1, _, _, [] => false
  | 0, _, _, c :: s =>
    match utf8Lead c with
    | none => false
    | some (tail, lo, hi) => validUtf8From tail lo hi s
  | tail + 1, lo, hi, c :: s =>
    decide (lo ≤ c ∧ c ≤ hi) && validUtf8From tail 0x80 0xbf s

/-- `is_valid_utf8`. -/
def isValidUtf8 (s : List UInt8) : Bool := validUtf8From 0 0x80 0xbf s

/-! ### Prefixes -/

theorem utf8Lead_range {tail : ℕ} (h : utf8Lead c = some (tail, lo, hi)) :
    0x80 ≤ lo ∧ hi ≤ 0xbf := by
  unfold utf8Lead at h
  split_ifs at h <;> cases h <;> decide

/-- The bytes that follow, from the leading byte of a valid sequence. -/
theorem utf8Lead_tail {tail : ℕ} (h : utf8Lead c = some (tail, lo, hi)) :
    tail = if c < 0x80 then 0 else if c < 0xe0 then 1 else if c < 0xf0 then 2 else 3 := by
  unfold utf8Lead at h
  simp only [UInt8.lt_iff_toNat_lt, UInt8.le_iff_toNat_le, ← UInt8.toNat_inj, UInt8.reduceToNat]
    at h ⊢
  split_ifs at h <;> cases h <;> split_ifs <;> omega

/-- What comes before a NUL is valid: no sequence of several bytes has a NUL. -/
theorem validUtf8From_takeWhile {tail : ℕ} (hlo : 0x80 ≤ lo)
    (h : validUtf8From tail lo hi s = true) :
    validUtf8From tail lo hi (s.takeWhile (· != 0)) = true := by
  induction s generalizing tail lo hi with
  | nil => exact h
  | cons c s ih =>
    cases tail with
    | zero =>
      by_cases hc : c = 0
      · subst hc
        rfl
      · rw [takeWhile_cons_of_pos (by simpa using hc)]
        rw [validUtf8From] at h ⊢
        split at h
        · cases h
        · rename_i hlead
          exact ih (utf8Lead_range hlead).1 h
    | succ tail =>
      rw [validUtf8From, Bool.and_eq_true, decide_eq_true_eq] at h
      obtain ⟨⟨hle, hle'⟩, hrest⟩ := h
      have hc : c ≠ 0 := fun hc => absurd (UInt8.le_trans hlo (hc ▸ hle)) (by decide)
      rw [takeWhile_cons_of_pos (by simpa using hc), validUtf8From, Bool.and_eq_true,
        decide_eq_true_eq]
      exact ⟨⟨hle, hle'⟩, ih (by decide) hrest⟩

/-! ### One code point -/

/-- A byte of a sequence: the leading bits and six bits of the code point. -/
def utf8Byte (head cp shift : ℕ) : UInt8 := UInt8.ofNat (head ||| (cp >>> shift) % 64)

/-- `is_surrogate`. -/
def isSurrogate (cp : ℕ) : Bool := decide (0xd800 ≤ cp ∧ cp ≤ 0xdfff)

/-- `utf32_to_utf8`, without the final NUL; `[]` if the code point is not valid. -/
def utf32ToUtf8 (cp : ℕ) : List UInt8 :=
  if cp ≤ 0x7f then [UInt8.ofNat cp]
  else if cp ≤ 0x7ff then [utf8Byte 0xc0 cp 6, utf8Byte 0x80 cp 0]
  else if isSurrogate cp then []
  else if cp ≤ 0xffff then [utf8Byte 0xe0 cp 12, utf8Byte 0x80 cp 6, utf8Byte 0x80 cp 0]
  else if cp ≤ 0x10ffff then
    [utf8Byte 0xf0 cp 18, utf8Byte 0x80 cp 12, utf8Byte 0x80 cp 6, utf8Byte 0x80 cp 0]
  else []

/-- **The bytes of one code point**: a leading byte and as many bytes as it asks for. -/
def IsUtf8Sequence (text : List UInt8) : Prop :=
  ∃ c tail lo hi, text = c :: tail ∧ utf8Lead c = some (tail.length, lo, hi) ∧
    validUtf8From tail.length lo hi tail = true

/-- Unicode scalar values. -/
def IsScalar (cp : ℕ) : Prop := cp ≤ 0x10ffff ∧ isSurrogate cp = false

/-- The number of bytes of a code point. -/
def utf8Length (cp : ℕ) : ℕ :=
  if cp ≤ 0x7f then 1 else if cp ≤ 0x7ff then 2 else if cp ≤ 0xffff then 3 else 4

/-- A continuation byte. -/
def IsTail (c : UInt8) : Prop := 0x80 ≤ c.toNat ∧ c.toNat ≤ 0xbf

/-- A leading byte with the continuation bytes it asks for, and their code point. -/
inductive Sequence : ℕ → List UInt8 → Prop
  | one (c : UInt8) : c.toNat ≤ 0x7f → Sequence c.toNat [c]
  | two (c d : UInt8) : 0xc2 ≤ c.toNat ∧ c.toNat ≤ 0xdf → IsTail d →
      Sequence ((c.toNat - 0xc0) * 64 + (d.toNat - 0x80)) [c, d]
  | three (c d e : UInt8) : 0xe0 ≤ c.toNat ∧ c.toNat ≤ 0xef → IsTail d → IsTail e →
      Sequence (((c.toNat - 0xe0) * 64 + (d.toNat - 0x80)) * 64 + (e.toNat - 0x80)) [c, d, e]
  | four (c d e f : UInt8) : 0xf0 ≤ c.toNat ∧ c.toNat ≤ 0xf4 → IsTail d → IsTail e → IsTail f →
      Sequence ((((c.toNat - 0xf0) * 64 + (d.toNat - 0x80)) * 64 + (e.toNat - 0x80)) * 64 +
        (f.toNat - 0x80)) [c, d, e, f]

theorem toNat_utf8Byte (hdvd : 2 ^ k ∣ head) (hcp : cp / 2 ^ shift % 64 < 2 ^ k)
    (hsum : head + cp / 2 ^ shift % 64 < 256) :
    (utf8Byte head cp shift).toNat = head + cp / 2 ^ shift % 64 := by
  obtain ⟨m, rfl⟩ := hdvd
  rw [mul_comm, ← Nat.shiftLeft_eq] at hsum ⊢
  rw [utf8Byte, Nat.shiftRight_eq_div_pow, ← Nat.shiftLeft_add_eq_or_of_lt hcp,
    UInt8.toNat_ofNat', Nat.mod_eq_of_lt hsum]

/-- A leading byte. -/
theorem toNat_utf8Byte_lead (hdvd : 2 ^ k ∣ head) (hk : 2 ^ k ≤ 64) (hcp : cp / 2 ^ shift < 2 ^ k)
    (hsum : head + cp / 2 ^ shift < 256) :
    (utf8Byte head cp shift).toNat = head + cp / 2 ^ shift := by
  have hmod : cp / 2 ^ shift % 64 = cp / 2 ^ shift := Nat.mod_eq_of_lt (by omega)
  rw [toNat_utf8Byte hdvd (by omega) (by omega), hmod]

/-- A byte that follows. -/
theorem toNat_utf8Byte_tail (cp shift : ℕ) :
    (utf8Byte 0x80 cp shift).toNat = 0x80 + cp / 2 ^ shift % 64 := by
  have hlt : cp / 2 ^ shift % 64 < 64 := Nat.mod_lt _ (by decide)
  exact toNat_utf8Byte (k := 6) (by decide) hlt (by omega)

theorem isTail_utf8Byte (cp shift : ℕ) : IsTail (utf8Byte 0x80 cp shift) := by
  rw [IsTail, toNat_utf8Byte_tail]
  omega

/-- **`utf32_to_utf8` writes a sequence of the code point.** -/
theorem sequence_utf32ToUtf8 (h : IsScalar cp) : Sequence cp (utf32ToUtf8 cp) := by
  obtain ⟨hle, hs⟩ := h
  have htail := toNat_utf8Byte_tail cp
  unfold utf32ToUtf8
  split_ifs with h₁ h₂ h₃ h₄
  · have hc : (UInt8.ofNat cp).toNat = cp := by
      rw [UInt8.toNat_ofNat']
      omega
    have hseq := Sequence.one (UInt8.ofNat cp) (by omega)
    rwa [hc] at hseq
  · have hlead : (utf8Byte 0xc0 cp 6).toNat = 0xc0 + cp / 64 :=
      toNat_utf8Byte_lead (k := 6) (by decide) (by decide) (by omega) (by omega)
    have hseq := Sequence.two (utf8Byte 0xc0 cp 6) _ (by omega) (isTail_utf8Byte cp 0)
    rwa [hlead, htail, show (0xc0 + cp / 64 - 0xc0) * 64 + (0x80 + cp / 2 ^ 0 % 64 - 0x80) = cp by
      omega] at hseq
  · rw [hs] at h₃
    cases h₃
  · have hlead : (utf8Byte 0xe0 cp 12).toNat = 0xe0 + cp / 4096 :=
      toNat_utf8Byte_lead (k := 5) (by decide) (by decide) (by omega) (by omega)
    have hseq := Sequence.three (utf8Byte 0xe0 cp 12) _ _ (by omega) (isTail_utf8Byte cp 6)
      (isTail_utf8Byte cp 0)
    rwa [hlead, htail, htail,
      show ((0xe0 + cp / 4096 - 0xe0) * 64 + (0x80 + cp / 2 ^ 6 % 64 - 0x80)) *
      64 + (0x80 + cp / 2 ^ 0 % 64 - 0x80) = cp by omega] at hseq
  · have hlead : (utf8Byte 0xf0 cp 18).toNat = 0xf0 + cp / 262144 :=
      toNat_utf8Byte_lead (k := 4) (by decide) (by decide) (by omega) (by omega)
    have hseq := Sequence.four (utf8Byte 0xf0 cp 18) _ _ _ (by omega) (isTail_utf8Byte cp 12)
      (isTail_utf8Byte cp 6) (isTail_utf8Byte cp 0)
    rwa [hlead, htail, htail, htail, show (((0xf0 + cp / 262144 - 0xf0) * 64 +
      (0x80 + cp / 2 ^ 12 % 64 - 0x80)) * 64 + (0x80 + cp / 2 ^ 6 % 64 - 0x80)) *
      64 + (0x80 + cp / 2 ^ 0 % 64 - 0x80) = cp by omega] at hseq

theorem length_utf32ToUtf8 (h : IsScalar cp) : (utf32ToUtf8 cp).length = utf8Length cp := by
  obtain ⟨hle, hs⟩ := h
  simp only [utf32ToUtf8, utf8Length, hs, hle, if_true]
  split_ifs <;> first | rfl | contradiction

theorem validUtf8From_iff :
    validUtf8From tail.length 0x80 0xbf tail = true ↔ ∀ c ∈ tail, IsTail c := by
  induction tail with
  | nil => simp [validUtf8From]
  | cons c tail ih =>
    rw [length_cons, validUtf8From, Bool.and_eq_true, decide_eq_true_eq, ih,
      forall_mem_cons, UInt8.le_iff_toNat_le, UInt8.le_iff_toNat_le]
    rfl

/-- The leading byte and the one that follows it. -/
theorem isUtf8Sequence_cons_iff {d : UInt8} : IsUtf8Sequence (c :: d :: tail) ↔
    (IsTail d ∧
      (tail.length = 0 ∧ 0xc2 ≤ c.toNat ∧ c.toNat ≤ 0xdf ∨
        tail.length = 1 ∧ 0xe0 ≤ c.toNat ∧ c.toNat ≤ 0xef ∧ (c.toNat ≠ 0xe0 ∨ 0xa0 ≤ d.toNat) ∧
          (c.toNat ≠ 0xed ∨ d.toNat ≤ 0x9f) ∨
        tail.length = 2 ∧ 0xf0 ≤ c.toNat ∧ c.toNat ≤ 0xf4 ∧ (c.toNat ≠ 0xf0 ∨ 0x90 ≤ d.toNat) ∧
          (c.toNat ≠ 0xf4 ∨ d.toNat ≤ 0x8f))) ∧
      ∀ e ∈ tail, IsTail e := by
  have hsequence : IsUtf8Sequence (c :: d :: tail) ↔ (∃ lo hi, utf8Lead c =
      some (tail.length + 1, lo, hi) ∧ lo ≤ d ∧ d ≤ hi) ∧ ∀ e ∈ tail, IsTail e := by
    rw [← validUtf8From_iff]
    constructor
    · rintro ⟨_, _, lo, hi, ⟨⟩, hlead, hvalid⟩
      rw [length_cons, validUtf8From, Bool.and_eq_true, decide_eq_true_eq] at hvalid
      exact ⟨⟨lo, hi, hlead, hvalid.1⟩, hvalid.2⟩
    · rintro ⟨⟨lo, hi, hlead, hrange⟩, htail⟩
      refine ⟨c, d :: tail, lo, hi, rfl, hlead, ?_⟩
      rw [length_cons, validUtf8From, htail, decide_eq_true hrange]
      rfl
  rw [hsequence]
  refine and_congr_left fun _ => ?_
  unfold utf8Lead
  simp only [UInt8.le_iff_toNat_le, ← UInt8.toNat_inj, UInt8.reduceToNat, IsTail]
  split_ifs
  all_goals
    simp only [Option.some.injEq, Prod.mk.injEq, and_assoc, exists_and_left, exists_eq_left',
      UInt8.reduceToNat, reduceCtorEq, false_and, exists_const, false_iff]
    omega

theorem isUtf8Sequence_singleton_iff : IsUtf8Sequence [c] ↔ c.toNat ≤ 0x7f := by
  constructor
  · rintro ⟨_, _, lo, hi, ⟨⟩, hlead, -⟩
    have htail := utf8Lead_tail hlead
    split_ifs at htail with hc
    exact Nat.le_of_lt_succ (UInt8.lt_iff_toNat_lt.mp hc)
  · intro hc
    exact ⟨c, [], 0x80, 0xbf, rfl, if_pos (UInt8.le_iff_toNat_le.mpr hc), rfl⟩

/-- **The valid sequences** are those of scalar values, as short as they can be. -/
theorem isUtf8Sequence_iff : IsUtf8Sequence text ↔
    ∃ cp, Sequence cp text ∧ IsScalar cp ∧ text.length ≤ utf8Length cp := by
  simp only [IsScalar, isSurrogate, decide_eq_false_iff_not, utf8Length]
  constructor
  · intro h
    match text with
    | [] =>
      obtain ⟨c, tail, lo, hi, heq, -⟩ := h
      cases heq
    | [c] =>
      have hc := isUtf8Sequence_singleton_iff.mp h
      exact ⟨_, .one c hc, by omega, Nat.le_of_eq (if_pos hc).symm⟩
    | c :: d :: tail =>
      obtain ⟨⟨hd, hc⟩, htail⟩ := isUtf8Sequence_cons_iff.mp h
      match tail with
      | [] =>
        simp only [length_nil, length_cons, IsTail] at hc hd ⊢
        refine ⟨_, .two c d (by omega) hd, by omega, ?_⟩
        split_ifs <;> omega
      | [e] =>
        have he := htail e (by simp)
        simp only [length_nil, length_cons, IsTail] at hc hd he ⊢
        refine ⟨_, .three c d e (by omega) hd he, by omega, ?_⟩
        split_ifs <;> omega
      | [e, f] =>
        have he := htail e (by simp)
        have hf := htail f (by simp)
        simp only [length_nil, length_cons, IsTail] at hc hd he hf ⊢
        refine ⟨_, .four c d e f (by omega) hd he hf, by omega, ?_⟩
        split_ifs <;> omega
      | e :: f :: g :: tail => simp at hc
  · rintro ⟨cp, hseq, hscalar, hlen⟩
    cases hseq with
    | one c hc => exact isUtf8Sequence_singleton_iff.mpr hc
    | two c d hc hd =>
      exact isUtf8Sequence_cons_iff.mpr ⟨⟨hd, .inl ⟨rfl, hc⟩⟩, by simp⟩
    | three c d e hc hd he =>
      refine isUtf8Sequence_cons_iff.mpr ⟨⟨hd, .inr (.inl ⟨rfl, ?_⟩)⟩, by simp [he]⟩
      simp only [length_nil, length_cons, IsTail] at hlen hd he
      split_ifs at hlen <;> omega
    | four c d e f hc hd he hf =>
      refine isUtf8Sequence_cons_iff.mpr ⟨⟨hd, .inr (.inr ⟨rfl, ?_⟩)⟩, by simp [he, hf]⟩
      simp only [length_nil, length_cons, IsTail] at hlen hd he hf
      split_ifs at hlen <;> omega

theorem isScalar_of_utf32ToUtf8 (h : utf32ToUtf8 cp ≠ []) : IsScalar cp := by
  unfold utf32ToUtf8 at h
  simp only [IsScalar, isSurrogate, decide_eq_true_eq, decide_eq_false_iff_not] at h ⊢
  split_ifs at h <;> first | omega | exact absurd rfl h

/-- **`utf32_to_utf8` writes one sequence.** -/
theorem isUtf8Sequence_utf32ToUtf8 (h : IsScalar cp) : IsUtf8Sequence (utf32ToUtf8 cp) :=
  isUtf8Sequence_iff.mpr ⟨cp, sequence_utf32ToUtf8 h, h, Nat.le_of_eq (length_utf32ToUtf8 h)⟩

/-- No byte of the text of a code point is a NUL, but for the NUL. -/
theorem ne_zero_of_mem_utf32ToUtf8 (hcp : cp ≠ 0) (h : c ∈ utf32ToUtf8 cp) : c ≠ 0 := by
  have hseq := sequence_utf32ToUtf8 (isScalar_of_utf32ToUtf8 (ne_nil_of_mem h))
  rintro rfl
  generalize utf32ToUtf8 cp = text at h hseq
  cases hseq <;>
    simp only [mem_cons, not_mem_nil, or_false, ← UInt8.toNat_inj, UInt8.reduceToNat,
      IsTail] at * <;>
    omega

/-! ### Several code points -/

theorem validUtf8From_zero : validUtf8From 0 lo hi s = isValidUtf8 s := by
  cases s <;> rfl

/-- The rest of a sequence, and what follows it. -/
theorem validUtf8From_append :
    validUtf8From tail.length lo hi (tail ++ s) =
      (validUtf8From tail.length lo hi tail && isValidUtf8 s) := by
  induction tail generalizing lo hi with
  | nil => rw [nil_append, length_nil, validUtf8From_zero, validUtf8From, Bool.true_and]
  | cons c tail ih =>
    rw [length_cons, cons_append, validUtf8From, validUtf8From, ih, Bool.and_assoc]

/-- A sequence that is not complete. -/
theorem validUtf8From_short {n : ℕ} (h : tail.length < n) : validUtf8From n lo hi tail = false := by
  induction tail generalizing n lo hi with
  | nil =>
    cases n with
    | zero => cases h
    | succ n => rfl
  | cons c tail ih =>
    cases n with
    | zero => cases h
    | succ n =>
      rw [length_cons, Nat.add_lt_add_iff_right] at h
      rw [validUtf8From, ih h, Bool.and_false]

theorem IsUtf8Sequence.isValidUtf8_append (h : IsUtf8Sequence text) :
    isValidUtf8 (text ++ s) = isValidUtf8 s := by
  obtain ⟨c, tail, lo, hi, rfl, hlead, hvalid⟩ := h
  rw [cons_append, isValidUtf8, validUtf8From, hlead]
  dsimp only
  rw [validUtf8From_append, hvalid, Bool.true_and]

/-- What is valid and starts a sequence is all of it or nothing. -/
theorem IsUtf8Sequence.eq_nil_of_isValidUtf8 (h : IsUtf8Sequence text) (hs : s <+: text)
    (hlt : s.length < text.length) (hvalid : isValidUtf8 s = true) : s = [] := by
  obtain ⟨c, tail, lo, hi, rfl, hlead, -⟩ := h
  cases s with
  | nil => rfl
  | cons d s =>
    obtain ⟨rfl, hs⟩ := cons_prefix_cons.mp hs
    rw [length_cons, length_cons, Nat.add_lt_add_iff_right] at hlt
    rw [isValidUtf8, validUtf8From, hlead] at hvalid
    dsimp only at hvalid
    rw [validUtf8From_short hlt] at hvalid
    cases hvalid

theorem isValidUtf8_flatten (h : ∀ text ∈ texts, IsUtf8Sequence text) :
    isValidUtf8 texts.flatten = true := by
  induction texts with
  | nil => rfl
  | cons text texts ih =>
    rw [flatten_cons, (h text mem_cons_self).isValidUtf8_append]
    exact ih fun t ht => h t (mem_cons_of_mem _ ht)

/-- **A valid prefix of several sequences ends between two of them.** -/
theorem eq_flatten_of_isValidUtf8 (h : ∀ text ∈ texts, IsUtf8Sequence text)
    (hs : s <+: texts.flatten) (hvalid : isValidUtf8 s = true) :
    ∃ k, s = (texts.take k).flatten := by
  induction texts generalizing s with
  | nil => exact ⟨0, prefix_nil.mp hs⟩
  | cons text texts ih =>
    have htext := h text mem_cons_self
    rw [flatten_cons] at hs
    rcases Nat.lt_or_ge s.length text.length with hlt | hge
    · have hpre : s <+: text := prefix_of_prefix_length_le hs (prefix_append _ _) (Nat.le_of_lt hlt)
      exact ⟨0, htext.eq_nil_of_isValidUtf8 hpre hlt hvalid⟩
    · obtain ⟨r, rfl⟩ := prefix_of_prefix_length_le (prefix_append _ _) hs hge
      rw [htext.isValidUtf8_append] at hvalid
      obtain ⟨k, rfl⟩ := ih (fun t ht => h t (mem_cons_of_mem _ ht))
        ((prefix_append_right_inj text).mp hs) hvalid
      exact ⟨k + 1, by rw [take_succ_cons, flatten_cons]⟩

/-! ### Encodings -/

/-- `scanner_check_supported_char_encoding`: what is left of the input, without a byte order
mark, if the encoding is supported. -/
def checkSupportedCharEncoding (s : List UInt8) : Option (List UInt8) :=
  match s with
  | 0xef :: 0xbb :: 0xbf :: s => some s
  | c :: d :: _ => if c = 0 ∨ d = 0 then none else if 0x80 ≤ c then none else some s
  | _ => some s

end Xkbcommon
