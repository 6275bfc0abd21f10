import Mathlib.Data.List.Basic
import Mathlib.Tactic.Common

/-!
# Overwriting a part of an array

An array in which a range is overwritten, word by word. The words that are written so far are all
that has changed; the next word extends them.
-/

namespace Splice

open List

variable {α : Type*} {l words : List α} {base i : ℕ} {x : α}

/-- The array with the words from an index on. -/
def overwrite (l : List α) (base : ℕ) (words : List α) : List α :=
  l.take base ++ words ++ l.drop (base + words.length)

theorem overwrite_nil : overwrite l base [] = l := by
  rw [overwrite, append_nil, length_nil, Nat.add_zero, take_append_drop]

theorem length_overwrite (h : base + words.length ≤ l.length) :
    (overwrite l base words).length = l.length := by
  simp only [overwrite, length_append, length_take, length_drop]
  omega

/-- What is within the range. -/
theorem getElem?_overwrite_add (hbase : base ≤ l.length) (hi : i < words.length) :
    (overwrite l base words)[base + i]? = words[i]? := by
  rw [overwrite, append_assoc, getElem?_append_right (by rw [length_take]; omega),
    length_take_of_le hbase, Nat.add_sub_cancel_left, getElem?_append_left hi]

/-- What is before the range or after it. -/
theorem getElem?_overwrite_of_not (hbase : base ≤ l.length)
    (hi : ¬(base ≤ i ∧ i < base + words.length)) : (overwrite l base words)[i]? = l[i]? := by
  have hlength : (l.take base ++ words).length = base + words.length := by
    rw [length_append, length_take_of_le hbase]
  rcases Nat.lt_or_ge i base with hlt | hle
  · rw [overwrite, append_assoc, getElem?_append_left (by rw [length_take]; omega),
      getElem?_take_of_lt hlt]
  · rw [overwrite, getElem?_append_right (by omega), hlength, getElem?_drop,
      Nat.add_sub_cancel' (by omega)]

/-- The next word. -/
theorem set_overwrite (h : base + words.length < l.length) :
    (overwrite l base words).set (base + words.length) x = overwrite l base (words ++ [x]) := by
  have hlength : (l.take base ++ words).length = base + words.length := by
    rw [length_append, length_take, Nat.min_eq_left (by omega)]
  rw [overwrite, set_append_right _ _ (by omega), hlength, Nat.sub_self,
    drop_eq_getElem_cons h, set_cons_zero, overwrite, length_append, length_singleton]
  simp only [append_assoc, cons_append, nil_append, Nat.add_assoc]

/-- The words are read back. -/
theorem take_drop_overwrite (hbase : base ≤ l.length) :
    ((overwrite l base words).drop base).take words.length = words := by
  rw [overwrite, append_assoc, drop_append_of_le_length (by rw [length_take]; omega),
    drop_eq_nil_of_le (length_take_le _ _), nil_append, take_left]

end Splice
