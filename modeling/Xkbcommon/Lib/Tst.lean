import Mathlib.Data.List.Basic
import Mathlib.Order.Basic
import Mathlib.Tactic.Order

/-!
# Ternary search trees

A ternary search tree stores a partial map from non-empty lists of keys to results. Each
node has a key and belongs to a binary search tree of the keys that may stand at one
position; a node is either *internal*, with the tree of the next position, or a *leaf*
with a result. As only leaves have results, no list of the map is a prefix of another:
inserting a list removes its prefixes and its extensions (`Tst.lookup_insert`).

The in-order traversal `Tst.entries` lists the map in lexicographic order.
-/

namespace Xkbcommon

open List

/-- **A ternary search tree** with keys in `κ` and results in `ρ`. -/
inductive Tst (κ ρ : Type*)
  | nil
  /-- The end of a list, with its result. -/
  | leaf (key : κ) (result : ρ) (lo hi : Tst κ ρ)
  /-- A key that others follow. -/
  | node (key : κ) (eq lo hi : Tst κ ρ)
  deriving DecidableEq, Repr

namespace Tst

variable {κ ρ : Type*} {p : κ → Prop} {t : Tst κ ρ}

/-! ### Ordered trees -/

/-- All keys of the first position satisfy `p`. -/
def AllKeys (p : κ → Prop) : Tst κ ρ → Prop
  | nil => True
  | leaf k _ lo hi => p k ∧ AllKeys p lo ∧ AllKeys p hi
  | node k _ lo hi => p k ∧ AllKeys p lo ∧ AllKeys p hi

/-- The keys of each position are a binary search tree, and every internal node is followed
by something. -/
def Ordered [LT κ] : Tst κ ρ → Prop
  | nil => True
  | leaf k _ lo hi => AllKeys (· < k) lo ∧ AllKeys (k < ·) hi ∧ Ordered lo ∧ Ordered hi
  | node k eq lo hi =>
    AllKeys (· < k) lo ∧ AllKeys (k < ·) hi ∧ Ordered lo ∧ Ordered hi ∧ eq ≠ nil ∧ Ordered eq

theorem AllKeys.imp {q : κ → Prop} (hpq : ∀ k, p k → q k) (h : AllKeys p t) : AllKeys q t := by
  induction t with
  | nil => trivial
  | leaf k r lo hi ihlo ihhi | node k eq lo hi _ ihlo ihhi =>
    exact ⟨hpq k h.1, ihlo h.2.1, ihhi h.2.2⟩

/-! ### Lookup -/

section Order

variable [LinearOrder κ] {k : κ} {r : ρ} {e : List κ × ρ} {s : List κ}

/-- The node of a key at the first position: its result, or the tree of the next position. -/
def find (k : κ) : Tst κ ρ → Option (ρ ⊕ Tst κ ρ)
  | nil => none
  | leaf k' r lo hi => if k < k' then find k lo else if k' < k then find k hi else some (.inl r)
  | node k' eq lo hi => if k < k' then find k lo else if k' < k then find k hi else some (.inr eq)

/-- **The map of a tree.** -/
def lookup : List κ → Tst κ ρ → Option ρ
  | [], _ => none
  | k :: s, t =>
    match find k t with
    | none => none
    | some (.inl r) => if s = [] then some r else none
    | some (.inr eq) => lookup s eq

/-- The tree behind an internal node is ordered, and not empty. -/
theorem Ordered.of_find {eq : Tst κ ρ} (h : Ordered t) (hfind : find k t = some (.inr eq)) :
    eq ≠ nil ∧ Ordered eq := by
  induction t with
  | nil => cases hfind
  | leaf k' r lo hi ihlo ihhi =>
    simp only [find] at hfind
    split at hfind
    · exact ihlo h.2.2.1 hfind
    · split at hfind
      · exact ihhi h.2.2.2 hfind
      · cases hfind
  | node k' eq' lo hi _ ihlo ihhi =>
    simp only [find] at hfind
    split at hfind
    · exact ihlo h.2.2.1 hfind
    · split at hfind
      · exact ihhi h.2.2.2.1 hfind
      · cases hfind
        exact h.2.2.2.2

/-! ### Insertion -/

/-- A single list. -/
def chain (r : ρ) : κ → List κ → Tst κ ρ
  | k, [] => leaf k r nil nil
  | k, k' :: s => node k (chain r k' s) nil nil

/-- **Insertion** of the list `k :: s`. A leaf on the way becomes an internal node; an internal
node at the end becomes a leaf. -/
def insert (r : ρ) (k : κ) (s : List κ) : Tst κ ρ → Tst κ ρ
  | nil => chain r k s
  | leaf k' r' lo hi =>
    if k < k' then leaf k' r' (insert r k s lo) hi
    else if k' < k then leaf k' r' lo (insert r k s hi)
    else match s with
      | [] => leaf k' r lo hi
      | k₂ :: s => node k' (chain r k₂ s) lo hi
  | node k' eq lo hi =>
    if k < k' then node k' eq (insert r k s lo) hi
    else if k' < k then node k' eq lo (insert r k s hi)
    else match s with
      | [] => leaf k' r lo hi
      | k₂ :: s => node k' (insert r k₂ s eq) lo hi

theorem allKeys_insert (hk : p k) (h : AllKeys p t) : AllKeys p (insert r k s t) := by
  induction t with
  | nil =>
    cases s with
    | nil | cons => exact ⟨hk, trivial, trivial⟩
  | leaf k' r' lo hi ihlo ihhi | node k' eq lo hi _ ihlo ihhi =>
    simp only [insert]
    split
    · exact ⟨h.1, ihlo h.2.1, h.2.2⟩
    · split
      · exact ⟨h.1, h.2.1, ihhi h.2.2⟩
      · cases s with
        | nil | cons => exact h

omit [LinearOrder κ] in
theorem chain_ne_nil : chain r k s ≠ nil := by
  cases s <;> simp [chain]

theorem insert_ne_nil : insert r k s t ≠ nil := by
  cases t with
  | nil => exact chain_ne_nil
  | leaf | node =>
    simp only [insert]
    split
    · simp
    · split
      · simp
      · cases s <;> simp

theorem ordered_chain (k : κ) : Ordered (chain r k s) := by
  induction s generalizing k with
  | nil => exact ⟨trivial, trivial, trivial, trivial⟩
  | cons k₂ s ih => exact ⟨trivial, trivial, trivial, trivial, chain_ne_nil, ih k₂⟩

theorem Ordered.insert (h : Ordered t) (r : ρ) (k : κ) (s : List κ) : Ordered (insert r k s t) := by
  induction t generalizing k s with
  | nil => exact ordered_chain k
  | leaf k' r' lo hi ihlo ihhi =>
    obtain ⟨hlt, hgt, hlo, hhi⟩ := h
    simp only [Tst.insert]
    split
    · exact ⟨allKeys_insert ‹_› hlt, hgt, ihlo hlo k s, hhi⟩
    · split
      · exact ⟨hlt, allKeys_insert ‹_› hgt, hlo, ihhi hhi k s⟩
      · cases s with
        | nil => exact ⟨hlt, hgt, hlo, hhi⟩
        | cons k₂ s => exact ⟨hlt, hgt, hlo, hhi, chain_ne_nil, ordered_chain k₂⟩
  | node k' eq lo hi iheq ihlo ihhi =>
    obtain ⟨hlt, hgt, hlo, hhi, hne, heq⟩ := h
    simp only [Tst.insert]
    split
    · exact ⟨allKeys_insert ‹_› hlt, hgt, ihlo hlo k s, hhi, hne, heq⟩
    · split
      · exact ⟨hlt, allKeys_insert ‹_› hgt, hlo, ihhi hhi k s, hne, heq⟩
      · cases s with
        | nil => exact ⟨hlt, hgt, hlo, hhi⟩
        | cons k₂ s => exact ⟨hlt, hgt, hlo, hhi, insert_ne_nil, iheq heq k₂ s⟩

/-- The tree of the next position, empty at a leaf. -/
def next (k : κ) (t : Tst κ ρ) : Tst κ ρ :=
  match find k t with
  | some (.inr eq) => eq
  | _ => nil

/-- What is found after an insertion. -/
theorem find_insert (k' : κ) : find k' (insert r k s t) =
      if k' = k then
        some (match s with
          | [] => .inl r
          | k₂ :: s => .inr (insert r k₂ s (next k t)))
      else find k' t := by
  induction t with
  | nil =>
    cases s with
    | nil | cons =>
      simp only [insert, chain, find, next]
      rcases lt_trichotomy k' k with h | h | h
      · rw [if_pos h, if_neg h.ne]
      · subst h
        simp
      · rw [if_neg h.not_gt, if_pos h, if_neg h.ne']
  | leaf k₀ r₀ lo hi ihlo ihhi | node k₀ eq₀ lo hi _ ihlo ihhi =>
    simp only [insert, next]
    rcases lt_trichotomy k k₀ with h | h | h
    · -- the insertion is to the left
      rw [if_pos h]
      simp only [find, if_pos h]
      split
      · rw [ihlo]
        rfl
      · rw [if_neg (show k' ≠ k by order)]
    · subst h
      simp only [find, lt_irrefl, if_false]
      rcases lt_trichotomy k' k with h | h | h
      · cases s <;> simp [find, h, h.ne]
      · subst h
        cases s <;> simp [find, insert]
      · cases s <;> simp [find, h, h.not_gt, h.ne']
    · -- the insertion is to the right
      rw [if_neg h.not_gt, if_pos h]
      simp only [find, if_pos h, if_neg h.not_gt]
      split
      · rw [if_neg (show k' ≠ k by order)]
      · split
        · rw [ihhi]
          rfl
        · rw [if_neg (show k' ≠ k by order)]

theorem lookup_nil (q : List κ) : lookup q (nil : Tst κ ρ) = none := by
  cases q <;> rfl

/-- **The map after an insertion**: the list is bound, and its prefixes and extensions are
removed. -/
theorem lookup_insert (r : ρ) (k : κ) (s : List κ) (t : Tst κ ρ) (q : List κ) :
    lookup q (insert r k s t) =
      if q = k :: s then some r
      else if q <+: k :: s ∨ k :: s <+: q then none
      else lookup q t := by
  induction s generalizing k t q with
  | nil =>
    cases q with
    | nil => simp [lookup]
    | cons k' q =>
      simp only [lookup, find_insert]
      by_cases hk : k' = k
      · subst hk
        by_cases hq : q = [] <;> simp [hq]
      · simp [hk, Ne.symm hk]
  | cons k₂ s ih =>
    cases q with
    | nil => simp [lookup]
    | cons k' q =>
      simp only [lookup, find_insert]
      by_cases hk : k' = k
      · subst hk
        simp only [if_true, ih, List.cons.injEq, true_and, cons_prefix_cons]
        -- behind a leaf there is nothing but the leaf itself, which is a prefix
        split
        · rfl
        · split
          · rfl
          · rename_i hcmp
            have hq : q ≠ [] := by
              rintro rfl
              exact hcmp (.inl nil_prefix)
            unfold next
            rcases find k' t with _ | r₀ | eq
            · rw [lookup_nil]
            · rw [lookup_nil]
              exact (if_neg hq).symm
            · rfl
      · simp [hk, Ne.symm hk]

/-- No list of the map is a prefix of another. -/
theorem lookup_eq_none_of_prefix {q q' : List κ} (h : lookup q t = some r) (hne : q' ≠ q)
    (hcmp : q' <+: q ∨ q <+: q') : lookup q' t = none := by
  induction q generalizing t q' with
  | nil => cases h
  | cons k s ih =>
    cases q' with
    | nil => rfl
    | cons k' s' =>
      have hk : k' = k := by
        rcases hcmp with h | h
        · exact (cons_prefix_cons.mp h).1
        · exact (cons_prefix_cons.mp h).1.symm
      subst hk
      simp only [cons_prefix_cons, true_and] at hcmp
      simp only [lookup] at h ⊢
      rcases hfind : find k' t with _ | r₀ | eq <;> rw [hfind] at h
      · have hs : s = [] := by
          by_contra hs
          simp [hs] at h
        subst hs
        simp [show s' ≠ [] by simpa using hne]
      · exact ih h (by simpa using hne) hcmp

/-! ### Traversal -/

/-- **The entries of a tree**, from left to right. -/
def entries : Tst κ ρ → List (List κ × ρ)
  | nil => []
  | leaf k r lo hi => entries lo ++ ([k], r) :: entries hi
  | node k eq lo hi =>
    entries lo ++ ((entries eq).map fun e => (k :: e.1, e.2)) ++ entries hi

omit [LinearOrder κ] in
theorem AllKeys.of_mem_entries (h : AllKeys p t) (he : e ∈ entries t) :
    ∃ k s, e.1 = k :: s ∧ p k := by
  induction t with
  | nil => cases he
  | leaf k r lo hi ihlo ihhi =>
    rcases mem_append.mp he with he | he
    · exact ihlo h.2.1 he
    · rcases mem_cons.mp he with rfl | he
      · exact ⟨k, [], rfl, h.1⟩
      · exact ihhi h.2.2 he
  | node k eq lo hi _ ihlo ihhi =>
    rcases mem_append.mp he with he | he
    · rcases mem_append.mp he with he | he
      · exact ihlo h.2.1 he
      · obtain ⟨e', -, rfl⟩ := mem_map.mp he
        exact ⟨k, e'.1, rfl, h.1⟩
    · exact ihhi h.2.2 he

omit [LinearOrder κ] in
theorem AllKeys.not_mem_entries (h : AllKeys p t) (hk : ¬p k) : (k :: s, r) ∉ entries t := by
  intro hmem
  obtain ⟨k', s', heq, hp⟩ := h.of_mem_entries hmem
  cases heq
  exact hk hp

/-- **The entries are the map.** -/
theorem mem_entries (h : Ordered t) (q : List κ) (r : ρ) :
    (q, r) ∈ entries t ↔ lookup q t = some r := by
  induction t generalizing q with
  | nil =>
    rw [lookup_nil]
    simp [entries]
  | leaf k₀ r₀ lo hi ihlo ihhi =>
    obtain ⟨hlt, hgt, hlo, hhi⟩ := h
    cases q with
    | nil =>
      have hlo' := ihlo hlo []
      have hhi' := ihhi hhi []
      simp only [lookup, reduceCtorEq, iff_false] at hlo' hhi'
      simp [entries, lookup, hlo', hhi']
    | cons k s =>
      have hlo' := ihlo hlo (k :: s)
      have hhi' := ihhi hhi (k :: s)
      simp only [lookup] at hlo' hhi'
      simp only [entries, lookup, find, mem_append, mem_cons, Prod.mk.injEq, List.cons.injEq]
      rcases lt_trichotomy k k₀ with hk | hk | hk
      · rw [if_pos hk, ← hlo']
        simp [hk.ne, hgt.not_mem_entries hk.not_gt]
      · subst hk
        simp [hgt.not_mem_entries (lt_irrefl k), hlt.not_mem_entries (lt_irrefl k), eq_comm]
      · rw [if_neg hk.not_gt, if_pos hk, ← hhi']
        simp [hk.ne', hlt.not_mem_entries hk.not_gt]
  | node k₀ eq lo hi iheq ihlo ihhi =>
    obtain ⟨hlt, hgt, hlo, hhi, -, heq⟩ := h
    cases q with
    | nil =>
      have hlo' := ihlo hlo []
      have hhi' := ihhi hhi []
      simp only [lookup, reduceCtorEq, iff_false] at hlo' hhi'
      simp [entries, lookup, hlo', hhi']
    | cons k s =>
      have hlo' := ihlo hlo (k :: s)
      have hhi' := ihhi hhi (k :: s)
      simp only [lookup] at hlo' hhi'
      simp only [entries, lookup, find, mem_append, mem_map, Prod.mk.injEq, List.cons.injEq]
      rcases lt_trichotomy k k₀ with hk | hk | hk
      · rw [if_pos hk, ← hlo']
        simp [hk.ne', hgt.not_mem_entries hk.not_gt]
      · subst hk
        simp only [lt_irrefl, if_false]
        rw [← iheq heq s]
        simp [hgt.not_mem_entries (lt_irrefl k), hlt.not_mem_entries (lt_irrefl k)]
      · rw [if_neg hk.not_gt, if_pos hk, ← hhi']
        simp [hk.ne, hlt.not_mem_entries hk.not_gt]

/-- Entries with smaller first keys come first. -/
theorem lt_of_allKeys {u : Tst κ ρ} (ht : AllKeys (· < k) t) (hu : AllKeys (k ≤ ·) u)
    {e' : List κ × ρ} (he : e ∈ entries t) (he' : e' ∈ entries u) : e.1 < e'.1 := by
  obtain ⟨a, s, heq, ha⟩ := ht.of_mem_entries he
  obtain ⟨a', s', heq', ha'⟩ := hu.of_mem_entries he'
  rw [heq, heq']
  exact List.Lex.rel (lt_of_lt_of_le ha ha')

/-- **The entries are in lexicographic order.** -/
theorem pairwise_entries (h : Ordered t) : (entries t).Pairwise fun e e' => e.1 < e'.1 := by
  induction t with
  | nil => exact List.Pairwise.nil
  | leaf k r lo hi ihlo ihhi =>
    obtain ⟨hlt, hgt, hlo, hhi⟩ := h
    refine pairwise_append.mpr ⟨ihlo hlo, pairwise_cons.mpr ⟨?_, ihhi hhi⟩, ?_⟩
    · intro e he
      obtain ⟨k', s, heq, hk⟩ := hgt.of_mem_entries he
      rw [heq]
      exact List.Lex.rel hk
    · intro e he e' he'
      obtain ⟨k', s, heq, hk⟩ := hlt.of_mem_entries he
      rcases mem_cons.mp he' with rfl | he'
      · rw [heq]
        exact List.Lex.rel hk
      · exact lt_of_allKeys hlt (hgt.imp fun _ => le_of_lt) he he'
  | node k eq lo hi iheq ihlo ihhi =>
    obtain ⟨hlt, hgt, hlo, hhi, -, heq⟩ := h
    refine pairwise_append.mpr ⟨pairwise_append.mpr ⟨ihlo hlo, ?_, ?_⟩, ihhi hhi, ?_⟩
    · refine pairwise_map.mpr ((iheq heq).imp fun hlt => ?_)
      exact List.Lex.cons hlt
    · intro e he e' he'
      obtain ⟨k', s, heq, hk⟩ := hlt.of_mem_entries he
      obtain ⟨e'', -, rfl⟩ := mem_map.mp he'
      rw [heq]
      exact List.Lex.rel hk
    · intro e he e' he'
      rcases mem_append.mp he with he | he
      · exact lt_of_allKeys hlt (hgt.imp fun _ => le_of_lt) he he'
      · obtain ⟨e'', -, rfl⟩ := mem_map.mp he
        obtain ⟨k', s, heq, hk⟩ := hgt.of_mem_entries he'
        rw [heq]
        exact List.Lex.rel hk

/-- A tree that is not empty has an entry. -/
theorem exists_lookup (h : Ordered t) (hne : t ≠ nil) : ∃ q r, lookup q t = some r := by
  have hmem : ∃ e, e ∈ entries t := by
    induction t with
    | nil => exact absurd rfl hne
    | leaf k r lo hi => exact ⟨([k], r), by simp [entries]⟩
    | node k eq lo hi iheq =>
      obtain ⟨e, he⟩ := iheq h.2.2.2.2.2 h.2.2.2.2.1
      exact ⟨(k :: e.1, e.2), by simp [entries, he]⟩
  obtain ⟨e, he⟩ := hmem
  exact ⟨e.1, e.2, (mem_entries h e.1 e.2).mp he⟩

end Order

end Tst

end Xkbcommon
