import Xkbcommon.Utf8

/-!
# Decoding UTF-8

`utf8_next_code_point` of `src/utf8-decoding.c` reads one code point. It takes the length of the
sequence from a table of leading bytes, and of the bytes that follow it only asks that they are
continuation bytes (`Xkbcommon.utf8NextCodePoint_eq_some_iff`). So it reads back every code point
that `utf32_to_utf8` writes, but also sequences that are too long, and code points that there are
not: `Xkbcommon.OutOfRange`. `is_valid_utf8` has the ranges of the second byte right, and accepts
the texts of code points and nothing else (`Xkbcommon.isValidUtf8_iff`).
-/

namespace Xkbcommon

open List Option Sequence

variable {s t text : List UInt8} {c d : UInt8} {cp n v : ℕ}

/-! ### The code -/

/-- `utf8_sequence_length_by_leading_byte`. -/
def utf8SequenceLength (c : UInt8) : ℕ :=
  if c ≤ 0x7f then 1
  else if c ≤ 0xc1 then 0
  else if c ≤ 0xdf then 2
  else if c ≤ 0xef then 3
  else if c ≤ 0xf4 then 4
  else 0

/-- The bits of the code point in the leading byte of a sequence of several bytes. -/
def utf8LeadMask : ℕ → UInt8
  | 2 => 0x1f
  | 3 => 0x0f
  | _ => 0x07

/-- The loop over the bytes that follow; `none` if one of them is no continuation byte. -/
def utf8Continue (cp : ℕ) : List UInt8 → Option ℕ
  | [] => some cp
  | c :: s =>
    if c &&& 0xc0 ≠ 0x80 then none else utf8Continue (cp <<< 6 ||| (c &&& 0x3f).toNat) s

/-- **`utf8_next_code_point`** on a buffer of `max_size` bytes: the code point and the size, or
`none` for `INVALID_UTF8_CODE_POINT`. -/
def utf8NextCodePoint : List UInt8 → Option (ℕ × ℕ)
  | [] => none
  | c :: s =>
    let len := utf8SequenceLength c
    if s.length + 1 < len then none
    else if len = 1 then some (c.toNat, 1)
    else if len = 0 then none
    else
      ((utf8Continue (c &&& utf8LeadMask len).toNat (s.take (len - 1))).filter
        (!isSurrogate ·)).map (·, len)

/-! ### Sequences and their code points -/

/-- The first `n` bytes are the encoding of `cp`. -/
def EncodesScalar (s : List UInt8) (cp n : ℕ) : Prop :=
  IsScalar cp ∧ utf32ToUtf8 cp <+: s ∧ n = (utf32ToUtf8 cp).length

/-- **The text starts with a sequence that is too long for its code point, or whose code point is
above U+10FFFF.** -/
def OutOfRange (s : List UInt8) : Prop :=
  ∃ cp text, Sequence cp text ∧ isSurrogate cp = false ∧ text <+: s ∧
    ((utf32ToUtf8 cp).length < text.length ∨ 0x10ffff < cp)

/-! ### What is read -/

theorem and_c0_eq_iff : ∀ n < 256, n &&& 0xc0 = 0x80 ↔ 0x80 ≤ n ∧ n ≤ 0xbf := by decide +kernel

instance (c : UInt8) : Decidable (IsTail c) := inferInstanceAs (Decidable (_ ∧ _))

/-- A continuation byte adds six bits. -/
theorem utf8Continue_cons : utf8Continue v (d :: s) =
    if IsTail d then utf8Continue (v * 64 + (d.toNat - 0x80)) s else none := by
  have htail : d &&& 0xc0 = 0x80 ↔ IsTail d := by
    rw [IsTail, ← and_c0_eq_iff _ d.toNat_lt, ← UInt8.toNat_inj, UInt8.toNat_and]
    rfl
  rw [utf8Continue]
  by_cases hd : IsTail d
  · have hbits : (d &&& 0x3f).toNat = d.toNat - 0x80 := by
      obtain ⟨hlo, hhi⟩ := hd
      rw [UInt8.toNat_and]
      refine (Nat.and_two_pow_sub_one_eq_mod d.toNat 6).trans ?_
      omega
    have hlt : d.toNat - 0x80 < 2 ^ 6 := by
      have := hd.2
      omega
    rw [if_neg fun hne => hne (htail.mpr hd), if_pos hd, hbits,
      ← Nat.shiftLeft_add_eq_or_of_lt hlt, Nat.shiftLeft_eq]
  · rw [if_pos (mt htail.mp hd), if_neg hd]

theorem utf8SequenceLength_cases (c : UInt8) :
    (c.toNat ≤ 0x7f ∧ utf8SequenceLength c = 1) ∨
      ((0xc2 ≤ c.toNat ∧ c.toNat ≤ 0xdf) ∧ utf8SequenceLength c = 2) ∨
      ((0xe0 ≤ c.toNat ∧ c.toNat ≤ 0xef) ∧ utf8SequenceLength c = 3) ∨
      ((0xf0 ≤ c.toNat ∧ c.toNat ≤ 0xf4) ∧ utf8SequenceLength c = 4) ∨
      ((0x80 ≤ c.toNat ∧ c.toNat ≤ 0xc1 ∨ 0xf5 ≤ c.toNat) ∧ utf8SequenceLength c = 0) := by
  unfold utf8SequenceLength
  simp only [UInt8.le_iff_toNat_le, UInt8.reduceToNat]
  split_ifs <;> omega

theorem Sequence.utf8SequenceLength (h : Sequence cp (c :: s)) :
    utf8SequenceLength c = s.length + 1 := by
  have := utf8SequenceLength_cases c
  cases h <;> simp only [length_cons, length_nil] <;> omega

/-- A sequence is read, but for the surrogates. -/
theorem Sequence.utf8NextCodePoint_append (h : Sequence cp text) :
    utf8NextCodePoint (text ++ t) = if isSurrogate cp then none else some (cp, text.length) := by
  have hnil (v : ℕ) : utf8Continue v [] = some v := rfl
  cases h with
  | one c hc =>
    have hs : isSurrogate c.toNat = false := by
      simp only [isSurrogate, decide_eq_false_iff_not]
      omega
    simp [utf8NextCodePoint, (one c hc).utf8SequenceLength, hs]
  | two c d hc hd =>
    have hlead : c.toNat &&& 0x1f = c.toNat - 0xc0 :=
      (Nat.and_two_pow_sub_one_eq_mod _ 5).trans (by omega)
    simp [utf8NextCodePoint, (two c d hc hd).utf8SequenceLength, utf8LeadMask,
      hlead, utf8Continue_cons, hd, hnil, filter_some, apply_ite]
  | three c d e hc hd he =>
    have hlead : c.toNat &&& 0x0f = c.toNat - 0xe0 :=
      (Nat.and_two_pow_sub_one_eq_mod _ 4).trans (by omega)
    simp [utf8NextCodePoint, (three c d e hc hd he).utf8SequenceLength, utf8LeadMask,
      hlead, utf8Continue_cons, hd, he, hnil, filter_some, apply_ite]
  | four c d e f hc hd he hf =>
    have hlead : c.toNat &&& 0x07 = c.toNat - 0xf0 :=
      (Nat.and_two_pow_sub_one_eq_mod _ 3).trans (by omega)
    simp [utf8NextCodePoint, (four c d e f hc hd he hf).utf8SequenceLength, utf8LeadMask,
      hlead, utf8Continue_cons, hd, he, hf, hnil, filter_some, apply_ite]

theorem utf8Continue_isTail (h : utf8Continue v s = some cp) : ∀ d ∈ s, IsTail d := by
  induction s generalizing v with
  | nil => simp
  | cons d s ih =>
    rw [utf8Continue_cons] at h
    split_ifs at h with hd
    exact forall_mem_cons.mpr ⟨hd, ih h⟩

/-- **What `utf8_next_code_point` reads.** -/
theorem utf8NextCodePoint_eq_some_iff :
    utf8NextCodePoint s = some (cp, n) ↔ ∃ text, Sequence cp text ∧ isSurrogate cp = false ∧
      text <+: s ∧ n = text.length := by
  constructor
  · intro h
    obtain ⟨v, text, t, hseq, rfl⟩ : ∃ v text t, Sequence v text ∧ s = text ++ t := by
      cases s with
      | nil => cases h
      | cons c s =>
        unfold utf8NextCodePoint at h
        dsimp only at h
        split_ifs at h with hsize hone hzero
        · exact ⟨_, [c], s, .one c (by have := utf8SequenceLength_cases c; omega), rfl⟩
        · obtain ⟨v, hv, -⟩ := map_eq_some_iff.mp h
          have htail := utf8Continue_isTail (filter_eq_some_iff.mp hv).1
          rcases utf8SequenceLength_cases c with
            ⟨-, hlen⟩ | ⟨hc, hlen⟩ | ⟨hc, hlen⟩ | ⟨hc, hlen⟩ | ⟨-, hlen⟩
          all_goals rw [hlen] at hsize htail
          · exact absurd hlen hone
          · match s with
            | d :: s => exact ⟨_, _, s, .two c d hc (htail d (by simp)), rfl⟩
            | [] => simp at hsize
          · match s with
            | d :: e :: s =>
              exact ⟨_, _, s, .three c d e hc (htail d (by simp)) (htail e (by simp)), rfl⟩
            | [] | [_] => simp at hsize
          · match s with
            | d :: e :: f :: s =>
              exact ⟨_, _, s, .four c d e f hc (htail d (by simp)) (htail e (by simp))
                (htail f (by simp)), rfl⟩
            | [] | [_] | [_, _] => simp at hsize
          · exact absurd hlen hzero
    rw [hseq.utf8NextCodePoint_append] at h
    split_ifs at h with hs
    obtain ⟨rfl, rfl⟩ := Prod.mk.inj (Option.some.inj h)
    exact ⟨text, hseq, Bool.eq_false_iff.mpr hs, ⟨t, rfl⟩, rfl⟩
  · rintro ⟨text, hseq, hs, ⟨t, rfl⟩, rfl⟩
    rw [hseq.utf8NextCodePoint_append, hs]
    rfl

/-! ### What is written -/

/-- **A sequence is known by its length and its code point.** -/
theorem Sequence.unique {text' : List UInt8} (h : Sequence cp text) (h' : Sequence cp text')
    (hlen : text.length = text'.length) : text = text' := by
  generalize hcp : cp = cp' at h'
  cases h <;> cases h' <;> cases hlen
  all_goals
    simp only [IsTail, List.cons.injEq, and_true, ← UInt8.toNat_inj] at *
    omega

theorem Sequence.length_le (h : Sequence cp text) (hscalar : IsScalar cp) :
    (utf32ToUtf8 cp).length ≤ text.length := by
  rw [length_utf32ToUtf8 hscalar, utf8Length]
  cases h <;> simp only [IsTail, length_cons, length_nil] at * <;> split_ifs <;> omega

/-- A sequence that is as short as it can be is the one that is written. -/
theorem Sequence.eq_utf32ToUtf8 (h : Sequence cp text) (hscalar : IsScalar cp)
    (hlen : text.length ≤ (utf32ToUtf8 cp).length) : text = utf32ToUtf8 cp :=
  h.unique (sequence_utf32ToUtf8 hscalar) (Nat.le_antisymm hlen (h.length_le hscalar))

/-- **Decoding is the inverse of encoding** but for the sequences that are out of range. -/
theorem utf8NextCodePoint_exact_iff (s : List UInt8) :
    (∀ cp n, utf8NextCodePoint s = some (cp, n) ↔ EncodesScalar s cp n) ↔ ¬OutOfRange s := by
  constructor
  · rintro hexact ⟨cp, text, hseq, hs, hpre, hout⟩
    obtain ⟨hscalar, -, hlen⟩ :=
      (hexact cp text.length).mp (utf8NextCodePoint_eq_some_iff.mpr ⟨text, hseq, hs, hpre, rfl⟩)
    have hle := hscalar.1
    omega
  · intro hin cp n
    rw [utf8NextCodePoint_eq_some_iff]
    constructor
    · rintro ⟨text, hseq, hs, hpre, rfl⟩
      have hrange : ¬((utf32ToUtf8 cp).length < text.length ∨ 0x10ffff < cp) :=
        fun hout => hin ⟨cp, text, hseq, hs, hpre, hout⟩
      have hscalar : IsScalar cp := ⟨by omega, hs⟩
      obtain rfl := hseq.eq_utf32ToUtf8 hscalar (by omega)
      exact ⟨hscalar, hpre, rfl⟩
    · rintro ⟨hscalar, hpre, rfl⟩
      exact ⟨_, sequence_utf32ToUtf8 hscalar, hscalar.2, hpre, rfl⟩

/-- An overlong NUL is read. -/
theorem utf8NextCodePoint_overlong :
    utf8NextCodePoint [0xe0, 0x80, 0x80] = some (0, 3) ∧ utf32ToUtf8 0 = [0] ∧
      isValidUtf8 [0xe0, 0x80, 0x80] = false := by
  decide

/-! ### What is valid -/

/-- A valid text is a sequence and a valid text. -/
theorem exists_isUtf8Sequence (h : isValidUtf8 (c :: s) = true) :
    ∃ text t, c :: s = text ++ t ∧ IsUtf8Sequence text ∧ isValidUtf8 t = true := by
  rw [isValidUtf8, validUtf8From] at h
  split at h
  · cases h
  · rename_i k lo hi hlead
    obtain ⟨tail, t, rfl, rfl⟩ : ∃ tail t, s = tail ++ t ∧ tail.length = k := by
      rcases Nat.lt_or_ge s.length k with hlt | hge
      · rw [validUtf8From_short hlt] at h
        cases h
      · exact ⟨s.take k, s.drop k, (take_append_drop k s).symm, length_take_of_le hge⟩
    rw [validUtf8From_append, Bool.and_eq_true] at h
    exact ⟨c :: tail, t, rfl, ⟨c, tail, lo, hi, rfl, hlead, h.1⟩, h.2⟩

/-- **`is_valid_utf8` accepts the texts of code points and nothing else.** -/
theorem isValidUtf8_iff (s : List UInt8) : isValidUtf8 s = true ↔
    ∃ cps : List ℕ, (∀ cp ∈ cps, IsScalar cp) ∧ s = cps.flatMap utf32ToUtf8 := by
  constructor
  · intro h
    -- on the length of the text: each sequence has a byte
    induction hn : s.length using Nat.strongRecOn generalizing s with
    | ind n ih =>
      cases s with
      | nil => exact ⟨[], by simp, rfl⟩
      | cons c s =>
        obtain ⟨text, t, heq, hseq, ht⟩ := exists_isUtf8Sequence h
        obtain ⟨cp, hcp, hscalar, hlen⟩ := isUtf8Sequence_iff.mp hseq
        rw [← length_utf32ToUtf8 hscalar] at hlen
        obtain rfl := hcp.eq_utf32ToUtf8 hscalar hlen
        have hlt : t.length < n := by
          obtain ⟨d, tail, lo, hi, htext, -⟩ := hseq
          rw [← hn, heq, htext, cons_append, length_cons, length_append]
          omega
        obtain ⟨cps, hcps, rfl⟩ := ih t.length hlt t ht rfl
        exact ⟨cp :: cps, forall_mem_cons.mpr ⟨hscalar, hcps⟩, by rw [heq, flatMap_cons]⟩
  · rintro ⟨cps, hscalar, rfl⟩
    refine isValidUtf8_flatten fun text htext => ?_
    obtain ⟨cp, hcp, rfl⟩ := List.mem_map.mp htext
    exact isUtf8Sequence_utf32ToUtf8 (hscalar cp hcp)

end Xkbcommon
