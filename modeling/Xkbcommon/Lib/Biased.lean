import Mathlib.Data.List.Basic

/-!
# Biased merging

Two values of which the second is preferred: a list that is not empty wins over the first
(`Biased.override`). Two lists of values are merged entry by entry, and the longer one keeps what
the shorter one lacks (`Biased.zipLong`). If the entries past the end of a list count as neutral
ones, such a merge is pointwise (`Biased.getD_zipLong`).
-/

namespace Biased

open List

variable {α β : Type*}

/-! ### Lists that may be undefined -/

/-- The second list if it is defined, that is, not empty, and the first one otherwise. -/
def override (a b : List α) : List α := if b.isEmpty then a else b

variable (second : Bool) (as bs a b : List α)

@[simp]
theorem override_nil : override a [] = a := rfl

@[simp]
theorem nil_override : override [] b = b := by
  cases b <;> rfl

theorem override_of_ne_nil {b : List α} (h : b ≠ []) : override a b = b := by
  cases b with
  | nil => exact absurd rfl h
  | cons => rfl

theorem override_self : override a a = a := by
  cases a <;> rfl

theorem override_assoc (c : List α) : override (override a b) c = override a (override b c) := by
  cases c with
  | nil => rfl
  | cons => rfl

theorem map_override {f : α → β} (a b : List α) :
    (override a b).map f = override (a.map f) (b.map f) := by
  cases b <;> rfl

/-- The two lists, with a preference for the second one or for the first one. -/
def prefer (second : Bool) (a b : List α) : List α :=
  if second then override a b else override b a

@[simp]
theorem prefer_nil : prefer second a [] = a := by
  cases second <;> simp [prefer]

@[simp]
theorem nil_prefer : prefer second [] b = b := by
  cases second <;> simp [prefer]

@[simp]
theorem prefer_self : prefer second a a = a := by
  cases second <;> exact override_self a

theorem map_prefer {f : α → β} (a b : List α) :
    (prefer second a b).map f = prefer second (a.map f) (b.map f) := by
  cases second <;> exact map_override _ _

/-! ### Merging lists entry by entry -/

/-- The lists merged entry by entry, and the rest of the longer one. -/
def zipLong (f : α → α → α) : List α → List α → List α
  | [], bs => bs
  | as, [] => as
  | a :: as, b :: bs => f a b :: zipLong f as bs

variable {f : α → α → α}

@[simp]
theorem zipLong_nil_left : zipLong f [] bs = bs := by
  rw [zipLong]

@[simp]
theorem zipLong_nil_right : zipLong f as [] = as := by
  cases as <;> rfl

@[simp]
theorem zipLong_cons_cons (a b : α) (as bs : List α) :
    zipLong f (a :: as) (b :: bs) = f a b :: zipLong f as bs := rfl

theorem length_zipLong : (zipLong f as bs).length = max as.length bs.length := by
  induction as generalizing bs with
  | nil => simp
  | cons a as ih =>
    cases bs with
    | nil => simp
    | cons b bs => simp [ih, Nat.succ_max_succ]

theorem getElem?_zipLong (i : ℕ) : (zipLong f as bs)[i]? = Option.merge f as[i]? bs[i]? := by
  induction as generalizing bs i with
  | nil => cases h : bs[i]? <;> simp [h]
  | cons a as ih =>
    cases bs with
    | nil => cases h : (a :: as)[i]? <;> simp [h]
    | cons b bs =>
      cases i with
      | zero => rfl
      | succ i => simpa using ih bs i

/-- **Merging is pointwise** if entries that are missing are neutral. -/
theorem getD_zipLong {d : α} (hleft : ∀ b, f d b = b) (hright : ∀ a, f a d = a) (as bs : List α)
    {i : ℕ} : (zipLong f as bs).getD i d = f (as.getD i d) (bs.getD i d) := by
  rw [getD_eq_getElem?_getD, getD_eq_getElem?_getD, getD_eq_getElem?_getD, getElem?_zipLong]
  cases as[i]? with
  | none => cases bs[i]? <;> simp [hleft]
  | some a => cases bs[i]? <;> simp [hright]

theorem forall_mem_zipLong {p : α → Prop} {as bs : List α} (hf : ∀ a b, p a → p b → p (f a b))
    (has : ∀ a ∈ as, p a) (hbs : ∀ b ∈ bs, p b) : ∀ c ∈ zipLong f as bs, p c := by
  induction as generalizing bs with
  | nil => simpa using hbs
  | cons a as ih =>
    cases bs with
    | nil => simpa using has
    | cons b bs =>
      rw [zipLong_cons_cons, forall_mem_cons]
      rw [forall_mem_cons] at has hbs
      exact ⟨hf a b has.1 hbs.1, ih has.2 hbs.2⟩

end Biased
