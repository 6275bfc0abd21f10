import Xkbcommon.Turns

/-!
# Histories of key events

How deep a key is down after a run of events: the presses minus the releases
(`Xkbcommon.depth`). A history is *matched* if no key is released more often than it
was pressed, and *alternating* if no key is pressed again before it is released.

The filters know a key by its address and not by its keycode, so the depth is also read
off an address (`Xkbcommon.keyDepth`); an event changes the depth of one address, as
`Holds.Move.depth` says.
-/

namespace Xkbcommon

open Holds List KeyDirection

variable {es es' : List (ℕ × KeyDirection)} {dir : KeyDirection} {kc kc' : ℕ}

/-- How often a key is down after a run of events. -/
def depth (es : List (ℕ × KeyDirection)) (kc : ℕ) : ℤ :=
  (es.count (kc, .down) : ℤ) - es.count (kc, .up)

/-- In no prefix of the run is a key released more often than it was pressed. -/
def Matched (es : List (ℕ × KeyDirection)) : Prop := ∀ pre, pre <+: es → ∀ kc, 0 ≤ depth pre kc

/-- The presses and the releases of each key alternate, a press first. -/
def Alternating (es : List (ℕ × KeyDirection)) : Prop :=
  ∀ pre, pre <+: es → ∀ kc, 0 ≤ depth pre kc ∧ depth pre kc ≤ 1

theorem Alternating.matched (h : Alternating es) :
    Matched es := fun pre hpre kc => (h pre hpre kc).1

theorem Matched.of_append (h : Matched (es ++ es')) :
    Matched es := fun pre hpre => h pre (hpre.trans (prefix_append es es'))

theorem Alternating.of_append (h : Alternating (es ++ es')) :
    Alternating es := fun pre hpre => h pre (hpre.trans (prefix_append es es'))

theorem depth_append_self : depth (es ++ [(kc, dir)]) kc = dir.move.depth (depth es kc) := by
  cases dir <;> simp [depth, move, Move.depth] <;> omega

theorem depth_append_of_ne (h : kc' ≠ kc) : depth (es ++ [(kc, dir)]) kc' = depth es kc' := by
  simp [depth, Ne.symm h]

theorem depth_append_repeated : depth (es ++ [(kc, .repeated)]) kc' = depth es kc' := by
  simp [depth]

/-- A key without events is up. -/
theorem depth_of_absent (h : ∀ e ∈ es, e.1 ≠ kc) : depth es kc = 0 := by
  have hcount : ∀ dir, es.count (kc, dir) = 0 := fun dir =>
    count_eq_zero.mpr fun hmem => h _ hmem rfl
  rw [depth, hcount, hcount]
  rfl

/-- What holds of the depth 0 and of the keys of a run holds of every key. -/
theorem forall_depth_iff {pre : List (ℕ × KeyDirection)} {p : ℤ → Prop} (hzero : p 0)
    (hpre : pre <+: es) : (∀ kc, p (depth pre kc)) ↔ ∀ e ∈ es, p (depth pre e.1) := by
  refine ⟨fun h e _ => h e.1, fun h kc => ?_⟩
  by_cases hkc : ∃ e ∈ es, e.1 = kc
  · obtain ⟨e, he, rfl⟩ := hkc
    exact h e he
  · rw [depth_of_absent fun e he heq => hkc ⟨e, hpre.subset he, heq⟩]
    exact hzero

theorem depth_eq_zero (h : (es.all fun e => decide (depth es e.1 = 0)) = true) (kc : ℕ) :
    depth es kc = 0 :=
  (forall_depth_iff (p := (· = 0)) rfl (prefix_refl es)).mpr
    (fun e he => by simpa using all_eq_true.mp h e he) kc

instance : Decidable (Matched es) :=
  decidable_of_iff
      ((es.inits.all fun pre => es.all fun e => decide (0 ≤ depth pre e.1)) = true) <| by
    simp only [List.all_eq_true, decide_eq_true_eq, List.mem_inits]
    exact forall₂_congr fun pre hpre => (forall_depth_iff (p := (0 ≤ ·)) le_rfl hpre).symm

instance : Decidable (Alternating es) :=
  decidable_of_iff ((es.inits.all fun pre =>
    es.all fun e => decide (0 ≤ depth pre e.1 ∧ depth pre e.1 ≤ 1)) = true) <| by
    simp only [List.all_eq_true, decide_eq_true_eq, List.mem_inits]
    exact forall₂_congr fun pre hpre =>
      (forall_depth_iff (p := fun d => 0 ≤ d ∧ d ≤ 1) (by decide) hpre).symm

/-- In an alternating history a pressed key was up, and a released one was down. -/
theorem Alternating.depth_of_last (h : Alternating (es ++ [(kc, dir)])) :
    (dir = .down → depth es kc = 0) ∧ (dir = .up → depth es kc = 1) := by
  have hbefore := h es (prefix_append ..) kc
  have hafter := h _ (prefix_refl _) kc
  rw [depth_append_self] at hafter
  constructor
  · rintro rfl
    simp only [move, Move.depth] at hafter
    omega
  · rintro rfl
    simp only [move, Move.depth] at hafter
    omega

/-- The depth of the key at an address: that of its keycode, if the address is the one that
the keycode leads to. -/
def keyDepth (km : XkbKeymap) (es : List (ℕ × KeyDirection)) (addr : KeyAddr) : ℤ :=
  match derefKey km addr with
  | none => 0
  | some k =>
    if (keyOf km k.key.keycode).map KeyRef.addr = some addr then depth es k.key.keycode else 0

section KeyDepth

variable {km : XkbKeymap} {k : KeyRef} {addr : KeyAddr}

theorem keyDepth_of_keyOf (hk : keyOf km kc = some k) : keyDepth km es k.addr = depth es kc := by
  obtain ⟨-, hkc, hderef⟩ := keyOf_spec hk
  rw [keyDepth, hderef]
  dsimp only
  rw [hkc, hk]
  exact if_pos rfl

/-- The depth of an address depends on one keycode. -/
theorem keyDepth_congr
    (h : ∀ kc' k', keyOf km kc' = some k' → k'.addr = addr → depth es' kc' = depth es kc') :
    keyDepth km es' addr = keyDepth km es addr := by
  unfold keyDepth
  split
  · rfl
  · rename_i k' _
    split
    · rename_i hmap
      obtain ⟨k'', hk'', haddr⟩ := Option.map_eq_some_iff.mp hmap
      exact h _ k'' hk'' haddr
    · rfl

/-- An event of a key changes the depth of its address. -/
theorem keyDepth_append_self (hk : keyOf km kc = some k) :
    keyDepth km (es ++ [(kc, dir)]) k.addr = dir.move.depth (keyDepth km es k.addr) := by
  rw [keyDepth_of_keyOf hk, keyDepth_of_keyOf hk, depth_append_self]

theorem keyDepth_append_of_ne (hk : keyOf km kc = some k) (haddr : addr ≠ k.addr) :
    keyDepth km (es ++ [(kc, dir)]) addr = keyDepth km es addr := by
  refine keyDepth_congr fun kc' k' hk' hk'addr => depth_append_of_ne ?_
  rintro rfl
  rw [hk] at hk'
  exact haddr (by rw [← hk'addr, ← Option.some.inj hk'])

/-- An ignored event changes no depth. -/
theorem keyDepth_append_ignored (hk : eventKey km kc dir = none) :
    keyDepth km (es ++ [(kc, dir)]) = keyDepth km es := by
  funext addr
  refine keyDepth_congr fun kc' k' hk' _ => ?_
  by_cases hkc : kc' = kc
  · subst hkc
    have hdir : dir = .repeated := by
      rw [eventKey, hk', Option.filter_some] at hk
      split at hk
      · cases hk
      · rename_i hrep
        simp only [Bool.or_eq_true, not_or, bne_iff_ne, not_not] at hrep
        exact hrep.1
    rw [hdir, depth_append_repeated]
  · exact depth_append_of_ne hkc

theorem keyDepth_eq_zero (h : ∀ kc, depth es kc = 0) (addr : KeyAddr) :
    keyDepth km es addr = 0 := by
  unfold keyDepth
  split
  · rfl
  · split
    · exact h _
    · rfl

/-- **What the handling of a key keeps holds along a run of key events**, if it is about the
depths of the keys and the state: an ignored event changes neither. -/
theorem keyRun_invariant {m : LegacyMode} {P : (KeyAddr → ℤ) → XkbServerState → Prop}
    (hnew : P (keyDepth km []) (legacyStateNew km m))
    (hstep : ∀ {pre kc dir k}, pre ++ [(kc, dir)] <+: es → eventKey km kc dir = some k →
      P (keyDepth km pre) (keyRun km m pre) →
      P (keyDepth km (pre ++ [(kc, dir)])) (handleKey km ⟨keyRun km m pre, none⟩ k dir).state) :
    P (keyDepth km es) (keyRun km m es) := by
  induction es using reverseRecOn with
  | nil => exact hnew
  | append_singleton es e ih =>
    obtain ⟨kc, dir⟩ := e
    have ih := ih fun hpre => hstep (hpre.trans (prefix_append ..))
    rw [keyRun_append_singleton, updateKey_keyRun]
    cases hk : eventKey km kc dir with
    | none => rwa [keyDepth_append_ignored hk]
    | some k => exact hstep (prefix_refl _) hk ih

end KeyDepth

end Xkbcommon
