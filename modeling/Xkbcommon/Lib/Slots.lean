import Mathlib.Algebra.BigOperators.Group.List.Basic

/-!
# Slot tables

A slot table is an array whose entries are busy or free. A new entry goes into the
first free slot, or at the end when there is none; an entry is removed by making its
slot free, and the array never shrinks. For a user of the table a free slot and an
index past the end are the same thing, so the table is read through `Slots.busyAt`, and
the lemmas here say what the operations do to that reading – no index arithmetic is
left to the user.
-/

namespace Slots

open List

variable {i : ℕ}

variable {α : Type*} {busy : α → Bool} {l : List α} {x y : α} {j : ℕ}

/-- The busy entry at an index, if there is one. -/
def busyAt (busy : α → Bool) (l : List α) (i : ℕ) : Option α := (l[i]?).filter busy

theorem busyAt_eq_some_iff :
    busyAt busy l i = some x ↔ l[i]? = some x ∧ busy x = true := Option.filter_eq_some_iff

theorem busyAt_of_length_le (h : l.length ≤ i) : busyAt busy l i = none := by
  rw [busyAt, getElem?_eq_none h, Option.filter_none]

theorem lt_length_of_busyAt (h : busyAt busy l i = some x) : i < l.length := by
  by_contra hcon
  rw [busyAt_of_length_le (by omega)] at h
  cases h

theorem exists_busyAt_of_mem (h : x ∈ l) (hx : busy x = true) : ∃ i, busyAt busy l i = some x := by
  obtain ⟨i, hi⟩ := getElem?_of_mem h
  exact ⟨i, busyAt_eq_some_iff.mpr ⟨hi, hx⟩⟩

theorem mem_of_busyAt (h : busyAt busy l i = some x) : x ∈ l :=
  mem_of_getElem? (busyAt_eq_some_iff.mp h).1

/-- Writing a slot changes that slot alone. -/
theorem busyAt_set (hi : i < l.length) :
    busyAt busy (l.set i x) j = if j = i then (some x).filter busy else busyAt busy l j := by
  unfold busyAt
  split
  · rename_i h
    rw [h, getElem?_set_self hi]
  · rename_i h
    rw [getElem?_set_ne (Ne.symm h)]

/-! ### Allocation -/

/-- The index of the first free slot; the length of the table when there is none. -/
def firstFree (busy : α → Bool) (l : List α) : ℕ := l.findIdx fun x => !busy x

theorem firstFree_le_length : firstFree busy l ≤ l.length := findIdx_le_length

/-- The slot that is handed out is free. -/
theorem busyAt_firstFree : busyAt busy l (firstFree busy l) = none := by
  rcases Nat.lt_or_ge (firstFree busy l) l.length with h | h
  · have hfree : (!busy l[firstFree busy l]) = true := findIdx_getElem (w := h)
    rw [busyAt, getElem?_eq_getElem h, Option.filter_some, if_neg (by simpa using hfree)]
  · exact busyAt_of_length_le h

/-- Fill a slot, at an index of the table or at its end. -/
def put (l : List α) (i : ℕ) (x : α) : List α := if i < l.length then l.set i x else l ++ [x]

theorem busyAt_put (hi : i ≤ l.length) :
    busyAt busy (put l i x) j = if j = i then (some x).filter busy else busyAt busy l j := by
  unfold put
  split
  · exact busyAt_set ‹_›
  · have hlen : l.length = i := by omega
    unfold busyAt
    rcases Nat.lt_trichotomy j i with h | rfl | h
    · rw [if_neg (by omega), getElem?_append_left (by omega)]
    · rw [if_pos rfl, ← hlen, getElem?_concat_length]
    · rw [if_neg (by omega), getElem?_eq_none (by simp; omega), getElem?_eq_none (by omega)]

theorem le_length_put : l.length ≤ (put l i x).length := by
  unfold put
  split <;> simp

theorem getElem?_put (hi : i ≤ l.length) : (put l i x)[i]? = some x := by
  unfold put
  split
  · exact getElem?_set_self ‹_›
  · rw [show i = l.length by omega, getElem?_concat_length]

theorem set_put (hi : i ≤ l.length) : (put l i x).set i y = put l i y := by
  unfold put
  split
  · exact set_set ..
  · rw [show i = l.length by omega, set_append_right _ _ (Nat.le_refl _), Nat.sub_self,
      set_cons_zero]

theorem mem_put (h : y ∈ put l i x) : y ∈ l ∨ y = x := by
  unfold put at h
  split at h
  · exact mem_or_eq_of_mem_set h
  · simpa using h

/-! ### Sums over the slots -/

section Total

variable {A : Type*} [AddCommGroup A] {v : α → A}

/-- The sum of a value over all slots. -/
def total (v : α → A) (l : List α) : A := (l.map v).sum

/-- Writing a slot changes the sum by the difference of the values. -/
theorem total_set (hi : l[i]? = some x) : total v (l.set i y) = total v l + (v y - v x) := by
  obtain ⟨hlt, hx⟩ := List.getElem?_eq_some_iff.mp hi
  have hlt' : i < (l.map v).length := by simpa using hlt
  rw [total, total, map_set, sum_set', dif_pos hlt', getElem_map, hx, neg_add_eq_sub]

/-- Filling a free slot adds the new value, if free slots have none. -/
theorem total_put_firstFree (hfree : ∀ x, busy x = false → v x = 0) :
    total v (put l (firstFree busy l) y) = total v l + v y := by
  unfold put
  split
  · rename_i hlt
    have hidle : (!busy l[firstFree busy l]) = true := findIdx_getElem (w := hlt)
    have hzero : v l[firstFree busy l] = 0 := hfree _ (by simpa using hidle)
    rw [total_set (getElem?_eq_getElem hlt), hzero, sub_zero]
  · rw [total, map_append, sum_append]
    simp [total]

/-- A sum of zeros. -/
theorem total_eq_zero (h : ∀ x ∈ l, v x = 0) : total v l = 0 := by
  refine sum_eq_zero fun a ha => ?_
  obtain ⟨x, hx, rfl⟩ := mem_map.mp ha
  exact h x hx

/-- The sum depends on what the slots hold, and a slot without a value is as good as
none. -/
theorem total_congr {l' : List α}
    (h : ∀ i : ℕ, ((l[i]?).map v).getD 0 = ((l'[i]?).map v).getD 0) : total v l = total v l' := by
  induction l generalizing l' with
  | nil =>
    refine (total_eq_zero fun x hx => ?_).symm
    obtain ⟨i, hi⟩ := getElem?_of_mem hx
    have := h i
    rw [hi] at this
    exact this.symm
  | cons x l ih =>
    cases l' with
    | nil =>
      refine total_eq_zero fun y hy => ?_
      obtain ⟨i, hi⟩ := getElem?_of_mem hy
      have := h i
      rw [hi] at this
      exact this
    | cons y l' =>
      have hhead : v x = v y := h 0
      have htail : total v l = total v l' := ih fun i => h (i + 1)
      rw [total, map_cons, sum_cons, hhead]
      exact congrArg (v y + ·) htail

end Total

end Slots
