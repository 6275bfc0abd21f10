import Mathlib.Data.List.InsertIdx
import Mathlib.Order.Lattice
import Mathlib.Tactic.Common

/-!
# Binary search

The search of a value in a table that is strictly increasing between two indices. The table is given
by how an index is read, and reading may fail: the search then reports it. A value that is not there
has a place at which it could be inserted.

The interval shrinks in every turn, so as many turns are enough as the interval is long.
-/

namespace BinarySearch

variable {α : Type*} [LinearOrder α]

/-- What a search ends with. -/
inductive Result
  | found (index : ℕ)
  /-- The value is not there; the index is that of the first larger one. -/
  | missing (index : ℕ)
  /-- An index was read that the table does not have. -/
  | outOfRange
  deriving DecidableEq, Repr

/-- The index of the value that was found. -/
def Result.index? : Result → Option ℕ
  | .found index => some index
  | _ => none

/-- The search of `x` in `[lower, upper)`. -/
def search (read : ℕ → Option α) (x : α) : ℕ → ℕ → ℕ → Result
  | 0, lower, _ => .missing lower
  | fuel + 1, lower, upper =>
    if lower < upper then
      let mid := lower + (upper - 1 - lower) / 2
      match read mid with
      | none => .outOfRange
      | some y =>
        if y < x then search read x fuel (mid + 1) upper
        else if x < y then search read x fuel lower mid
        else .found mid
    else .missing lower

/-- The table can be read between two indices, and increases strictly. -/
structure Increasing (read : ℕ → Option α) (lower upper : ℕ) : Prop where
  readable : ∀ i, lower ≤ i → i < upper → ∃ y, read i = some y
  lt : ∀ i j y z, lower ≤ i → i < j → j < upper → read i = some y → read j = some z → y < z

/-- A place for a value that is not there: smaller ones before it, larger ones from it on. -/
structure Place (read : ℕ → Option α) (x : α) (lower upper i : ℕ) : Prop where
  lower_le : lower ≤ i
  le_upper : i ≤ upper
  lt : ∀ j y, lower ≤ j → j < i → read j = some y → y < x
  gt : ∀ j y, i ≤ j → j < upper → read j = some y → x < y

variable {read : ℕ → Option α} {x : α} {lower upper fuel i : ℕ}

theorem Increasing.mono (h : Increasing read lower upper) {lower' upper' : ℕ}
    (hlower : lower ≤ lower') (hupper : upper' ≤ upper) : Increasing read lower' upper' := by
  constructor
  · intro i hi hi'
    exact h.readable i (by omega) (by omega)
  · intro i j y z hi hij hj
    exact h.lt i j y z (by omega) hij (by omega)

/-- **The search is exact**: it finds the value, or the place where it is missing. -/
theorem search_spec (h : Increasing read lower upper) (hle : lower ≤ upper)
    (hfuel : upper - lower ≤ fuel) :
    (∃ i, search read x fuel lower upper = .found i ∧ lower ≤ i ∧ i < upper ∧ read i = some x) ∨
    ∃ i, search read x fuel lower upper = .missing i ∧ Place read x lower upper i := by
  induction fuel generalizing lower upper with
  | zero =>
    obtain rfl : lower = upper := by omega
    refine .inr ⟨lower, rfl, ⟨le_refl _, le_refl _, ?_, ?_⟩⟩ <;> intros <;> omega
  | succ fuel ih =>
    rw [search]
    by_cases hlt : lower < upper
    swap
    · obtain rfl : lower = upper := by omega
      rw [if_neg hlt]
      refine .inr ⟨lower, rfl, ⟨le_refl _, le_refl _, ?_, ?_⟩⟩ <;> intros <;> omega
    rw [if_pos hlt]
    dsimp only
    generalize hmid : lower + (upper - 1 - lower) / 2 = mid
    have hmid_lower : lower ≤ mid := by omega
    have hmid_upper : mid < upper := by omega
    obtain ⟨y, hy⟩ := h.readable mid hmid_lower hmid_upper
    rw [hy]
    dsimp only
    rcases lt_trichotomy y x with hyx | rfl | hxy
    · -- the value is past the middle, and so is all that is smaller
      rw [if_pos hyx]
      rcases ih (h.mono (by omega) (le_refl upper)) (by omega : mid + 1 ≤ upper) (by omega) with
        ⟨i, hfound, hi, hi', hread⟩ | ⟨i, hmissing, hplace⟩
      · exact .inl ⟨i, hfound, by omega, hi', hread⟩
      · refine .inr ⟨i, hmissing, ⟨by have := hplace.lower_le; omega, hplace.le_upper, ?_,
          hplace.gt⟩⟩
        intro j z hj hji hz
        rcases lt_trichotomy j mid with hjm | rfl | hjm
        · exact lt_trans (h.lt j mid z y hj hjm hmid_upper hz hy) hyx
        · exact Option.some.inj (hy.symm.trans hz) ▸ hyx
        · exact hplace.lt j z (by omega) hji hz
    · rw [if_neg (lt_irrefl y), if_neg (lt_irrefl y)]
      exact .inl ⟨mid, rfl, hmid_lower, hmid_upper, hy⟩
    · -- the value is before the middle, and so is all that is not larger
      rw [if_neg (lt_asymm hxy), if_pos hxy]
      rcases ih (h.mono (le_refl lower) (by omega)) hmid_lower (by omega) with
        ⟨i, hfound, hi, hi', hread⟩ | ⟨i, hmissing, hplace⟩
      · exact .inl ⟨i, hfound, hi, by omega, hread⟩
      · refine .inr ⟨i, hmissing, ⟨hplace.lower_le, by have := hplace.le_upper; omega, hplace.lt,
          ?_⟩⟩
        intro j z hij hj hz
        rcases lt_trichotomy j mid with hjm | rfl | hjm
        · exact hplace.gt j z hij hjm hz
        · exact Option.some.inj (hy.symm.trans hz) ▸ hxy
        · exact lt_trans hxy (h.lt mid j y z hmid_lower hjm hj hy hz)

/-- A value of the table is found, at its index. -/
theorem search_of_read (h : Increasing read lower upper) (hfuel : upper - lower ≤ fuel)
    (hi : lower ≤ i) (hi' : i < upper) (hread : read i = some x) :
    search read x fuel lower upper = .found i := by
  rcases search_spec (x := x) h (by omega) hfuel with
    ⟨j, hfound, hj, hj', hread'⟩ | ⟨j, -, hplace⟩
  · rcases lt_trichotomy i j with hij | rfl | hij
    · exact absurd (h.lt i j x x hi hij hj' hread hread') (lt_irrefl x)
    · exact hfound
    · exact absurd (h.lt j i x x hj hij hi' hread' hread) (lt_irrefl x)
  · rcases lt_or_ge i j with hij | hij
    · exact absurd (hplace.lt i x hi hij hread) (lt_irrefl x)
    · exact absurd (hplace.gt i x hij hi' hread) (lt_irrefl x)

/-- A value that the table does not have is missing. -/
theorem search_of_forall_ne (h : Increasing read lower upper) (hle : lower ≤ upper)
    (hfuel : upper - lower ≤ fuel) (hne : ∀ i, lower ≤ i → i < upper → read i ≠ some x) :
    ∃ i, search read x fuel lower upper = .missing i ∧ Place read x lower upper i := by
  rcases search_spec (x := x) h hle hfuel with ⟨i, -, hi, hi', hread⟩ | hmissing
  · exact absurd hread (hne i hi hi')
  · exact hmissing

/-! ### Insertion -/

/-- A list stays sorted when a value is inserted at its place. -/
theorem pairwise_insertIdx {β : Type*} {r : β → β → Prop} {l : List β} {b : β} (h : l.Pairwise r)
    (hbefore : ∀ a ∈ l.take i, r a b) (hafter : ∀ a ∈ l.drop i, r b a) :
    (l.insertIdx i b).Pairwise r := by
  induction i generalizing l with
  | zero => exact List.pairwise_cons.mpr ⟨hafter, h⟩
  | succ i ih =>
    rcases l with - | ⟨a, l⟩
    · exact List.Pairwise.nil
    · obtain ⟨ha, hl⟩ := List.pairwise_cons.mp h
      refine List.pairwise_cons.mpr ⟨?_, ih hl (fun c hc => hbefore c (.tail _ hc)) hafter⟩
      intro c hc
      rcases List.eq_or_mem_of_mem_insertIdx hc with rfl | hc
      · exact hbefore a (.head _)
      · exact ha c hc

end BinarySearch
