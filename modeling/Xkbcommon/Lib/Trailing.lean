import Mathlib.Data.List.DropRight

/-!
# Lists up to trailing blanks

A list whose entries past the end count as a *blank* value. Two lists are then the same if they
agree at every index, and every list has a shortest form, which does not end in a blank
(`Trailing.Trimmed`). Trimmed lists that agree at every index are equal
(`Trailing.Trimmed.ext`), so what is said of a trimmed list entry by entry determines it.
-/

namespace Trailing

open List

variable {α : Type*} {blank : α → Bool} {d : α} {l a b : List α}

/-- The list does not end in a blank. -/
def Trimmed (blank : α → Bool) (l : List α) : Prop := ∀ x ∈ l.getLast?, blank x = false

theorem trimmed_nil : Trimmed blank [] := by
  rintro x ⟨⟩

theorem trimmed_iff_getD (d : α) :
    Trimmed blank l ↔ (l ≠ [] → blank (l.getD (l.length - 1) d) = false) := by
  rw [Trimmed, getLast?_eq_getElem?, getD_eq_getElem?_getD]
  rcases eq_nil_or_concat l with rfl | ⟨l, x, rfl⟩
  · simp
  · simp

theorem trimmed_rdropWhile : Trimmed blank (l.rdropWhile blank) := by
  rintro x hx
  obtain ⟨hne, rfl⟩ := mem_getLast?_eq_getLast hx
  exact Bool.eq_false_iff.mpr (rdropWhile_last_not blank l hne)

theorem take_length_rdropWhile (blank : α → Bool) (l : List α) :
    l.take (l.rdropWhile blank).length = l.rdropWhile blank :=
  (prefix_iff_eq_take.mp ( rdropWhile_prefix blank l)).symm

/-- Nothing is dropped exactly if the list is trimmed. -/
theorem length_rdropWhile_lt_iff : (l.rdropWhile blank).length < l.length ↔ ¬Trimmed blank l := by
  rcases eq_nil_or_concat l with rfl | ⟨l, x, rfl⟩
  · simp [trimmed_nil]
  · have hle : (l.rdropWhile blank).length ≤ l.length := ( rdropWhile_prefix blank l).length_le
    rw [concat_eq_append, rdropWhile_concat, Trimmed]
    by_cases hx : blank x = true
    · simp [hx, Nat.lt_succ_of_le hle]
    · simp [hx]

theorem getD_rdropWhile (hblank : ∀ x, blank x = true → x = d) (i : ℕ) :
    (l.rdropWhile blank).getD i d = l.getD i d := by
  induction l using reverseRecOn with
  | nil => simp
  | append_singleton l x ih =>
    rw [rdropWhile_concat]
    split_ifs with hx
    · rw [ih, hblank x hx, getD_eq_getElem?_getD, getD_eq_getElem?_getD, getElem?_append]
      split_ifs with hi
      · rfl
      · rw [getElem?_eq_none (by omega)]
        cases h : ([d] : List α)[i - l.length]? with
        | none => rfl
        | some y => exact (mem_singleton.mp (mem_of_getElem? h)).symm
    · rfl

/-- **Trimmed lists are determined by their entries.** -/
theorem Trimmed.ext (hd : blank d = true) (ha : Trimmed blank a) (hb : Trimmed blank b)
    (h : ∀ i, a.getD i d = b.getD i d) : a = b := by
  have hle {a b : List α} (hb : Trimmed blank b) (h : ∀ i, a.getD i d = b.getD i d) :
      b.length ≤ a.length := by
    by_contra hlt
    have hne : b ≠ [] := by
      rintro rfl
      simp at hlt
    have hlast := (trimmed_iff_getD d).mp hb hne
    rw [← h, getD_eq_getElem?_getD, getElem?_eq_none (by omega), Option.getD_none, hd] at hlast
    cases hlast
  refine ext_getElem? fun i => ?_
  have hlength : a.length = b.length := le_antisymm (hle ha fun i => (h i).symm) (hle hb h)
  have hi := h i
  rw [getD_eq_getElem?_getD, getD_eq_getElem?_getD] at hi
  by_cases hlt : i < a.length
  · rw [getElem?_eq_getElem hlt, getElem?_eq_getElem (hlength ▸ hlt)] at hi ⊢
    exact congrArg some hi
  · rw [getElem?_eq_none (by omega), getElem?_eq_none (by omega)]

end Trailing
