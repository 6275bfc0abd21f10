import Xkbcommon.KeyText

/-!
# Code points and their keysyms

`src/keysym-utf.c` converts between keysyms and Unicode code points. Both directions treat
ranges of keysyms by rule – Latin-1, the keypad, control characters, the direct encoding –
and leave the rest to one table, which a keysym is looked up in by a binary search and a code
point by a linear one that passes over deprecated entries.

Of the table two things are assumed: its keysyms increase, and none of them is treated by rule
(`Xkbcommon.SpecialKeysym`). Then a code point comes back from its keysym,
`Xkbcommon.utf32_keysym_roundtrip`: an entry that the linear search stops at is the only one of
its keysym, so that the binary search finds the same entry.
-/

namespace Xkbcommon

open List

variable {table : List Codepair} {cp : ℕ}

/-- The keysyms that `xkb_keysym_to_utf32` does not look up in the table, and `NoSymbol`, which
`xkb_utf32_to_keysym` returns for what is not a code point. -/
def SpecialKeysym (ks : Keysym) : Prop :=
  ks = noSymbol ∨ (0x20 ≤ ks ∧ ks ≤ 0x7e) ∨ (0xa0 ≤ ks ∧ ks ≤ 0xff) ∨ ks = 0xff80 ∨
  (0xff08 ≤ ks ∧ ks ≤ 0xff0b) ∨ (0xffaa ≤ ks ∧ ks ≤ 0xffb9) ∨ ks = 0xff0d ∨ ks = 0xff1b ∨
  ks = 0xffff ∨ ks = 0xff89 ∨ ks = 0xff8d ∨ ks = 0xffbd ∨
  (keysymUnicodeOffset ≤ ks ∧ ks ≤ keysymUnicodeMax) ∨ (0x10081200 ≤ ks ∧ ks ≤ 0x1008120b)

instance (ks : Keysym) : Decidable (SpecialKeysym ks) := by
  unfold SpecialKeysym
  infer_instance

/-- What is not a Unicode scalar value, and the null character. -/
def NoCodePoint (cp : ℕ) : Prop := cp = 0 ∨ (0xd800 ≤ cp ∧ cp ≤ 0xdfff) ∨ 0x10ffff < cp

instance (cp : ℕ) : Decidable (NoCodePoint cp) := by
  unfold NoCodePoint
  infer_instance

/-! ### The table -/

section Table

variable (hsorted : table.Pairwise fun p q => p.keysym < q.keysym)

include hsorted

/-- **The binary search finds every entry** between its bounds. -/
theorem binSearch_complete {i : ℕ} (hi : i < table.length) {first last : ℤ} (hfirst : 0 ≤ first)
    (hlast : last < table.length) (hilo : first ≤ i) (hihi : i ≤ last) (fuel : ℕ)
    (hfuel : last - first < fuel) :
    binSearch table table[i].keysym fuel first last = table[i].ucs := by
  have hlt := pairwise_iff_getElem.mp hsorted
  induction fuel generalizing first last with
  | zero => omega
  | succ fuel ih =>
    have hmid : ((first + last) / 2).toNat < table.length := by omega
    rw [binSearch, if_pos (by omega)]
    dsimp only
    rw [getElem?_eq_getElem hmid]
    dsimp only
    -- the position of the middle decides the comparison of its keysym
    rcases lt_trichotomy ((first + last) / 2).toNat i with h | h | h
    · rw [if_pos (hlt _ i hmid hi h)]
      exact ih (by omega) hlast (by omega) hihi (by omega)
    · simp [h]
    · have hgt := hlt i _ hi hmid h
      rw [if_neg hgt.asymm, if_pos hgt]
      exact ih hfirst (by omega) hilo (by omega) (by omega)

/-- The entry of a keysym gives its code point. -/
theorem keysymtabUcs_of_mem {pair : Codepair} (hpair : pair ∈ table) :
    keysymtabUcs table pair.keysym = pair.ucs := by
  obtain ⟨i, hi, rfl⟩ := mem_iff_getElem.mp hpair
  have hle := pairwise_iff_getElem.mp hsorted
  have hmono : ∀ (j k : ℕ) (hj : j < table.length) (hk : k < table.length), j ≤ k →
      table[j].keysym ≤ table[k].keysym := by
    intro j k hj hk hjk
    rcases lt_or_eq_of_le hjk with h | rfl
    · exact (hle j k hj hk h).le
    · exact le_rfl
  have hne : 0 < table.length := by omega
  rw [keysymtabUcs, head?_eq_getElem?, getLast?_eq_getElem?,
    getElem?_eq_getElem hne, getElem?_eq_getElem (Nat.sub_lt hne Nat.one_pos)]
  dsimp only
  rw [if_neg]
  · exact binSearch_complete hsorted hi (Int.le_refl 0) (by omega) (by omega) (by omega) _
      (by omega)
  · rintro (h | h)
    · exact absurd (hmono 0 i hne hi (Nat.zero_le i)) (not_le.mpr h)
    · exact absurd (hmono i _ hi _ (Nat.le_sub_one_of_lt hi)) (not_le.mpr h)

end Table

/-- A keysym that no rule is about is looked up. -/
theorem keysymToUtf32_of_not_special {ks : Keysym} (h : ¬SpecialKeysym ks) :
    keysymToUtf32 table ks = keysymtabUcs table ks := by
  unfold SpecialKeysym keysymUnicodeOffset keysymUnicodeMax Keysym at h
  unfold keysymToUtf32 keysymUnicodeOffset keysymUnicodeMax Keysym
  split_ifs <;> omega

/-- The keysyms of control characters. -/
theorem keysymToUtf32_control (h : (0x08 ≤ cp ∧ cp ≤ 0x0b) ∨ cp = 0x0d ∨ cp = 0x1b) :
    keysymToUtf32 table (cp + 0xff00) = cp := by
  unfold keysymToUtf32 keysymUnicodeOffset keysymUnicodeMax Keysym
  split_ifs <;> omega

/-- The direct encoding. -/
theorem keysymToUtf32_direct (h : ¬NoCodePoint cp) :
    keysymToUtf32 table (cp + keysymUnicodeOffset) = cp := by
  unfold NoCodePoint at h
  unfold keysymToUtf32 keysymUnicodeOffset keysymUnicodeMax Keysym
  split_ifs <;> omega

/-! ### There and back -/

/-- **A code point comes back from its keysym.** -/
theorem utf32_keysym_roundtrip (tables : KeysymTables)
    (hsorted : tables.keysymtab.Pairwise fun p q => p.keysym < q.keysym)
    (hplain : ∀ pair ∈ tables.keysymtab, ¬SpecialKeysym pair.keysym) (cp : ℕ) :
    (utf32ToKeysym tables cp = noSymbol ↔ NoCodePoint cp) ∧
      (¬NoCodePoint cp → keysymToUtf32 tables.keysymtab (utf32ToKeysym tables cp) = cp) := by
  unfold NoCodePoint utf32ToKeysym
  split_ifs with hlatin hcontrol hdelete hnone
  · refine ⟨⟨fun h => ?_, fun h => ?_⟩, fun _ => ?_⟩
    · change cp = 0 at h
      omega
    · omega
    · rw [keysymToUtf32, if_pos hlatin]
  · refine ⟨⟨fun h => ?_, fun h => ?_⟩, fun _ => ?_⟩
    · change cp + 0xff00 = 0 at h
      omega
    · omega
    · exact keysymToUtf32_control hcontrol
  · subst hdelete
    exact ⟨by decide, fun _ => by simp [keysymToUtf32]⟩
  · exact ⟨iff_of_true rfl hnone, fun h => absurd hnone h⟩
  · split
    · rename_i pair hfind
      have hmem := mem_of_find?_eq_some hfind
      have hucs : pair.ucs = cp := by
        have := find?_some hfind
        simp only [Bool.and_eq_true, beq_iff_eq] at this
        exact this.1
      have hspecial := hplain pair hmem
      refine ⟨iff_of_false (fun h => hspecial (.inl h)) hnone, fun _ => ?_⟩
      rw [keysymToUtf32_of_not_special hspecial, keysymtabUcs_of_mem hsorted hmem, hucs]
    · -- the direct encoding
      refine ⟨iff_of_false (fun h => ?_) hnone, fun h => keysymToUtf32_direct h⟩
      change cp + 0x01000000 = 0 at h
      omega

/-- Tables with the first and the last entry of `keysymtab`. -/
def twoCodepairs : KeysymTables :=
  { smallKeysyms.toKeysymTables with
    keysymtab := [⟨0x01a1, false, 0x0104⟩, ⟨0x20ac, false, 0x20ac⟩] }

theorem utf32_keysym_roundtrip_euro :
    keysymToUtf32 twoCodepairs.keysymtab (utf32ToKeysym twoCodepairs 0x20ac) = 0x20ac :=
  (utf32_keysym_roundtrip twoCodepairs (by decide) (by decide) 0x20ac).2 (by decide)

end Xkbcommon
