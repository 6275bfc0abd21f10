import Mathlib.Data.List.GetD
import Mathlib.Tactic.Common

/-!
# Sparse arrays

An array in which one value means that there is nothing at an index, as there is nothing past its
end. It is read as a total function, with `List.getD`, and grows when an index past its end is
written.
-/

namespace Sparse

open List

variable {α : Type*} (d : α) {l : List α} {i j : ℕ} {x : α}

/-- The array with room for an index. -/
def grow (l : List α) (i : ℕ) : List α := l ++ List.replicate (i + 1 - l.length) d

/-- An index is written. -/
def write (l : List α) (i : ℕ) (x : α) : List α := (grow d l i).set i x

variable {d} {f : α → α} {is : List ℕ}

theorem length_grow : (grow d l i).length = max l.length (i + 1) := by
  rw [grow, length_append, length_replicate]
  omega

theorem lt_length_grow : i < (grow d l i).length := by
  rw [length_grow]
  omega

@[simp]
theorem getD_grow : (grow d l i).getD j d = l.getD j d := by
  rw [grow]
  rcases Nat.lt_or_ge j l.length with hj | hj
  · rw [getD_append _ _ _ _ hj]
  · rw [getD_append_right _ _ _ _ hj, getD_eq_default _ _ hj]
    rw [getD_eq_getElem?_getD]
    exact getElem?_getD_replicate_default_eq _ _ _

/-- An index of the array is overwritten. -/
theorem getD_set (hi : i < l.length) : (l.set i x).getD j d = if j = i then x else l.getD j d := by
  rw [getD_eq_getElem?_getD, getElem?_set]
  split_ifs with hij hji hji
  · rfl
  · exact absurd hij.symm hji
  · exact absurd hji.symm hij
  · exact (getD_eq_getElem?_getD).symm

theorem getD_write : (write d l i x).getD j d = if j = i then x else l.getD j d := by
  rw [write, getD_set lt_length_grow, getD_grow]

theorem length_write : (write d l i x).length = max l.length (i + 1) := by
  rw [write, length_set, length_grow]

/-- What is not default is within the array. -/
theorem lt_length_of_getD_ne (h : l.getD i d ≠ d) : i < l.length := by
  by_contra hge
  exact h (getD_eq_default _ _ (Nat.le_of_not_lt hge))

/-! ### The last and the first value -/

/-- The length that an array with a value before an index needs for the last of them. -/
def lastDefined [DecidableEq α] (d : α) (l : List α) : ℕ → Option ℕ
  | 0 => none
  | i + 1 => if l.getD i d ≠ d then some (i + 1) else lastDefined d l i

theorem lastDefined_eq_some [DecidableEq α] (h : lastDefined d l i = some j) :
    j ≤ i ∧ (∃ k, j = k + 1 ∧ l.getD k d ≠ d) ∧ ∀ k, j ≤ k → k < i → l.getD k d = d := by
  induction i with
  | zero => exact absurd h (by simp [lastDefined])
  | succ i ih =>
    rw [lastDefined] at h
    split_ifs at h with hi
    · obtain rfl := Option.some.inj h
      exact ⟨Nat.le_refl _, ⟨i, rfl, hi⟩, fun k hk hk' => absurd hk' (by omega)⟩
    · obtain ⟨hle, hlast, hrest⟩ := ih h
      refine ⟨by omega, hlast, ?_⟩
      intro k hk hk'
      rcases Nat.lt_succ_iff_lt_or_eq.mp hk' with hki | rfl
      · exact hrest k hk hki
      · exact not_not.mp hi

theorem lastDefined_isSome [DecidableEq α] (hij : j < i) (hj : l.getD j d ≠ d) :
    ∃ k, lastDefined d l i = some k := by
  induction i with
  | zero => omega
  | succ i ih =>
    rw [lastDefined]
    split_ifs with hi
    · exact ⟨_, rfl⟩
    · rcases Nat.lt_succ_iff_lt_or_eq.mp hij with hji | rfl
      · exact ih hji
      · exact absurd hj hi

/-- The first index from another one on that has a value. -/
def firstDefined [DecidableEq α] (d : α) (l : List α) (i : ℕ) : Option ℕ :=
  ((l.drop i).findIdx? (· ≠ d)).map (i + ·)

theorem getD_drop : (l.drop i).getD j d = l.getD (i + j) d := by
  rw [getD_eq_getElem?_getD, getElem?_drop, getD_eq_getElem?_getD]

theorem firstDefined_eq_some [DecidableEq α] (h : firstDefined d l i = some j) :
    i ≤ j ∧ l.getD j d ≠ d ∧ ∀ k, i ≤ k → k < j → l.getD k d = d := by
  obtain ⟨k, hk, rfl⟩ := Option.map_eq_some_iff.mp h
  obtain ⟨hlt, hne, hrest⟩ := findIdx?_eq_some_iff_getElem.mp hk
  have hget : ∀ m (hm : m < (l.drop i).length), (l.drop i)[m] = l.getD (i + m) d := by
    intro m hm
    rw [← getD_drop, getD_eq_getElem _ _ hm]
  refine ⟨Nat.le_add_right _ _, ?_, ?_⟩
  · simpa [hget] using hne
  · intro m hm hm'
    have hm'' := hrest (m - i) (by omega)
    rw [hget, Nat.add_sub_cancel' hm] at hm''
    simpa using hm''

theorem firstDefined_isSome [DecidableEq α] (hij : i ≤ j) (hj : l.getD j d ≠ d) :
    ∃ k, firstDefined d l i = some k := by
  rcases hfirst : firstDefined d l i with - | k
  · have hnone := findIdx?_eq_none_iff.mp (Option.map_eq_none_iff.mp hfirst)
    have hlt := lt_length_of_getD_ne hj
    have hmem : l.getD j d ∈ l.drop i := by
      rw [getD_eq_getElem _ _ hlt]
      exact mem_drop_iff_getElem.mpr ⟨j - i, by omega, by congr 1; omega⟩
    exact absurd (hnone _ hmem) (by simpa using hj)
  · exact ⟨k, rfl⟩

/-! ### Changes of several values -/

/-- Several indices are changed, each once. -/
theorem getD_foldl_modify (hnodup : is.Nodup) (hlt : ∀ i ∈ is, i < l.length) :
    (is.foldl (fun l i => l.modify i f) l).getD j d =
      if j ∈ is then f (l.getD j d) else l.getD j d := by
  induction is generalizing l with
  | nil => rfl
  | cons i is ih =>
    obtain ⟨hnotMem, hnodup⟩ := nodup_cons.mp hnodup
    have hlt' : ∀ k ∈ is, k < (l.modify i f).length := by
      intro k hk
      rw [length_modify]
      exact hlt k (.tail _ hk)
    rw [foldl_cons, ih hnodup hlt']
    have hmodify : (l.modify i f).getD j d = if j = i then f (l.getD j d) else l.getD j d := by
      rw [getD_eq_getElem?_getD, getElem?_modify, getD_eq_getElem?_getD]
      by_cases hji : j = i
      · subst hji
        rw [if_pos rfl, getElem?_eq_getElem (hlt j mem_cons_self)]
        simp
      · rw [if_neg hji]
        simp [Ne.symm hji]
    rw [hmodify]
    by_cases hji : j = i
    · subst hji
      rw [if_neg hnotMem, if_pos rfl, if_pos mem_cons_self]
    · rw [if_neg hji]
      simp only [mem_cons, hji, false_or]

theorem length_foldl_modify : (is.foldl (fun l i => l.modify i f) l).length = l.length := by
  induction is generalizing l with
  | nil => rfl
  | cons i is ih => rw [foldl_cons, ih, length_modify]

end Sparse
