import Mathlib.Logic.Function.Basic
import Mathlib.Data.Option.Basic
import Mathlib.Tactic.SplitIfs

/-!
# A table and its index

A table holds a name in each of its slots, or nothing (the name `z`); its index gives the slot of a
name. The two match when each can be read off the other, so that they are one partial bijection.
The lemmas here say which changes of both together keep this: a name is put into an empty slot, a
slot is emptied, and the slots are renumbered.
-/

namespace Index

open Function

variable {S N : Type*} {z : N} {name : S → N} {slot : N → Option S} {s : S}

/-- **The index matches the table.** -/
def Matches (z : N) (name : S → N) (slot : N → Option S) : Prop :=
  ∀ n s, slot n = some s ↔ name s = n ∧ n ≠ z

theorem Matches.slot_name (h : Matches z name slot) (hs : name s ≠ z) : slot (name s) = some s :=
  (h _ _).mpr ⟨rfl, hs⟩

/-- Two slots do not hold the same name. -/
theorem Matches.injective (h : Matches z name slot) {t : S} (hs : name s ≠ z)
    (hst : name s = name t) : s = t :=
  Option.some.inj ((h.slot_name hs).symm.trans (hst ▸ h.slot_name (hst ▸ hs)))

/-- The slots are renumbered, all those in use. -/
theorem Matches.renumber (h : Matches z name slot) {name' : S → N} (f : S → S)
    (hname : ∀ s, name s ≠ z → name' (f s) = name s)
    (hused : ∀ t, name' t ≠ z → ∃ s, f s = t ∧ name s ≠ z) :
    Matches z name' (fun n => (slot n).map f) := by
  intro n t
  rw [Option.map_eq_some_iff]
  constructor
  · rintro ⟨s, hs, rfl⟩
    obtain ⟨rfl, hne⟩ := (h n s).mp hs
    exact ⟨hname s hne, hne⟩
  · rintro ⟨rfl, hne⟩
    obtain ⟨s, rfl, hs⟩ := hused t hne
    exact ⟨s, (h _ s).mpr ⟨(hname s hs).symm, hne⟩, rfl⟩

variable [DecidableEq S] [DecidableEq N]

/-- A name that is not in the table is put into an empty slot. -/
theorem Matches.fill (h : Matches z name slot) (hs : name s = z) {n : N} (hn : n ≠ z)
    (hslot : slot n = none) :
    Matches z (Function.update name s n) (Function.update slot n (some s)) := by
  intro m t
  rw [update_apply, update_apply]
  by_cases hm : m = n
  · subst hm
    rw [if_pos rfl]
    constructor
    · rintro ⟨⟩
      rw [if_pos rfl]
      exact ⟨rfl, hn⟩
    · rintro ⟨hname, -⟩
      split_ifs at hname with ht
      · rw [ht]
      · exact absurd (hslot.symm.trans ((h m t).mpr ⟨hname, hn⟩)) (Option.some_ne_none t).symm
  · rw [if_neg hm, h m t]
    split_ifs with ht
    · rw [ht, hs]
      exact ⟨fun hzero => absurd hzero.1.symm hzero.2, fun hname => absurd hname.1.symm hm⟩
    · rfl

/-- A slot is emptied, and its name is not in the table any more. -/
theorem Matches.clear (h : Matches z name slot) (s : S) :
    Matches z (Function.update name s z) (Function.update slot (name s) none) := by
  intro m t
  rw [update_apply, update_apply]
  by_cases ht : t = s
  · subst ht
    rw [if_pos rfl]
    refine ⟨fun hslot => ?_, fun hzero => absurd hzero.1.symm hzero.2⟩
    split_ifs at hslot with hm
    exact absurd ((h m t).mp hslot).1.symm hm
  · rw [if_neg ht]
    split_ifs with hm
    · refine ⟨False.elim, ?_⟩
      rintro ⟨hname, hne⟩
      exact absurd (h.injective (hname ▸ hne) (hname.trans hm)) ht
    · exact h m t

end Index
