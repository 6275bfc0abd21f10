import Xkbcommon.Quiet

/-!
# What the out-of-band updates do to the components

`update_latch_modifiers` and `update_latch_group` press a faked key, so as to break the
pending latches, and then tap a latch of another one. This file adds up the effect on
the components and on the two masks of the event:

* `Xkbcommon.updateLatchModifiers_effect` – the latched modifiers are replaced, as if
  written directly; the masks of the event get the new latches;
* `Xkbcommon.updateLatchGroup_effect` – the depressed group survives only modulo the
  30 bits of the group delta of a latch;
* `Xkbcommon.latchedLocked_effect` – both, with the locks.
-/

namespace Xkbcommon

open Masks BitVec Xkbcommon.Frame

variable {fr : Frame}

/-- The two masks and the queue of an event are as before. -/
structure SameMasks (fr fr' : Frame) : Prop where
  setMods : fr'.state.setMods = fr.state.setMods
  clearMods : fr'.state.clearMods = fr.state.clearMods
  events : fr'.events = fr.events

theorem SameMasks.refl (fr : Frame) : SameMasks fr fr := ⟨rfl, rfl, rfl⟩

/-! ### Breaking latches -/

variable (km : XkbKeymap) {group base : BitVec 32}

/-- **Breaking modifier latches** takes modifiers among those to clear from the latched
ones. -/
theorem press_breakMod (hok : SlotsOk fr) (clear : BitVec 32) :
    ∃ fr', xkbFilterPress km fr
        (syntheticBreakKey .syntheticKeyBreakModLatch internalBreaksModLatch clear) = fr' ∧
      SlotsOk fr' ∧ SameMasks fr fr' ∧ ∃ x, Sub x clear ∧ fr'.state.components =
        { fr.state.components with
          latchedMods := fr.state.components.latchedMods &&& ~~~x } := by
  refine ⟨_, rfl, ?_⟩
  rw [xkbFilterPress_syntheticBreakKey]
  refine runFilters_invariant (P := fun fr' => SlotsOk fr' ∧ SameMasks fr fr' ∧ ∃ x, Sub x clear ∧
      fr'.state.components =
        { fr.state.components with latchedMods := fr.state.components.latchedMods &&& ~~~x })
    ?_ ⟨hok, .refl fr, 0#32, sub_zero_left clear, by rw [not_zero, and_allOnes]⟩
  rintro i fr' f func ⟨hok', hmasks, x, hx, hc⟩ hf hfunc
  refine ⟨(quiet_breakKey_store (.mod clear) hok' hf hfunc).1, ?_⟩
  have hout := breakKey_call (.mod clear) (hok'.slot (slot_of_func hf hfunc)) hfunc fr'
  generalize func.call id fr' f _ .down = step at hout
  cases hout with
  | quiet f' _ => exact ⟨⟨hmasks.1, hmasks.2, hmasks.3⟩, x, hx, hc⟩
  | modLatch clear' _ _ hk hsub =>
    have hclear : clear' = clear := by simpa [syntheticBreakKey] using hk.symm
    refine ⟨⟨hmasks.1, hmasks.2, hmasks.3⟩, x ||| f.action.mods.mods.mask,
      sub_or hx (hclear ▸ hsub), ?_⟩
    simp only [FilterStep.store, setFilter, mapComponents, hc, BitVec.not_or, BitVec.and_assoc]
  | groupLatch _ _ hk => simp [syntheticBreakKey] at hk

/-- **Breaking group latches** changes the latched group only. -/
theorem press_breakGroup (hok : SlotsOk fr) :
    ∃ fr', xkbFilterPress km fr
        (syntheticBreakKey .syntheticKeyBreakGroupLatch internalBreaksGroupLatch 0#32) = fr' ∧
      SlotsOk fr' ∧ SameMasks fr fr' ∧ ∃ latched, fr'.state.components =
        { fr.state.components with latchedGroup := latched } := by
  refine ⟨_, rfl, ?_⟩
  rw [xkbFilterPress_syntheticBreakKey]
  refine runFilters_invariant (P := fun fr' => SlotsOk fr' ∧ SameMasks fr fr' ∧ ∃ latched,
      fr'.state.components = { fr.state.components with latchedGroup := latched })
    ?_ ⟨hok, .refl fr, _, rfl⟩
  rintro i fr' f func ⟨hok', hmasks, latched, hc⟩ hf hfunc
  refine ⟨(quiet_breakKey_store .group hok' hf hfunc).1, ?_⟩
  have hout := breakKey_call .group (hok'.slot (slot_of_func hf hfunc)) hfunc fr'
  generalize func.call id fr' f _ .down = step at hout
  cases hout with
  | quiet f' _ => exact ⟨⟨hmasks.1, hmasks.2, hmasks.3⟩, latched, hc⟩
  | modLatch clear' _ _ hk _ => simp [syntheticBreakKey] at hk
  | groupLatch _ _ _ =>
    refine ⟨⟨hmasks.1, hmasks.2, hmasks.3⟩, latched - groupLatchDelta f.priv, ?_⟩
    simp only [FilterStep.store, setFilter, mapComponents, hc]

/-! ### Replacing latches -/

/-- Taking modifiers away one part at a time, and adding the ones to keep. -/
theorem replace_mods (m mask new x : BitVec 32) (hx : Sub x (mask &&& ~~~new)) :
    m &&& ~~~(mask &&& ~~~new) &&& ~~~x ||| mask &&& new = m &&& ~~~mask ||| mask &&& new := by
  refine eq_of_getLsbD_eq fun i hi => ?_
  have hi' := hx i
  simp only [getLsbD_and, getLsbD_not, hi, decide_true, Bool.true_and, getLsbD_or] at hi' ⊢
  revert hi'
  cases m.getLsbD i <;> cases mask.getLsbD i <;> cases new.getLsbD i <;> cases x.getLsbD i <;> simp

/-- **What `update_latch_modifiers` does**: it replaces the latched modifiers of a mask.
The new ones are in both masks of the event, which cancel out. -/
theorem updateLatchModifiers_effect (hok : SlotsOk fr) (mask latches : BitVec 32) :
    ∃ fr', updateLatchModifiers km fr mask latches = fr' ∧ SlotsOk fr' ∧
      fr'.events = fr.events ∧
      fr'.state.setMods = fr.state.setMods ||| (mask &&& latches) ∧
      fr'.state.clearMods = fr.state.clearMods ||| (mask &&& latches) ∧
      fr'.state.components =
        { fr.state.components with
          latchedMods :=
            (fr.state.components.latchedMods &&& ~~~mask) ||| (mask &&& latches) } := by
  refine ⟨_, rfl, ?_⟩
  unfold updateLatchModifiers
  dsimp only
  have hok₁ : SlotsOk (fr.mapComponents fun c =>
      { c with latchedMods := c.latchedMods &&& ~~~(mask &&& ~~~latches) }) := hok.mapComponents _
  obtain ⟨fr', heq, hok', hmasks, x, hx, hc⟩ := press_breakMod km hok₁ (mask &&& ~~~latches)
  rw [heq]
  refine ⟨(quiet_tapLatch hok' (.mod _)).1, ?_⟩
  obtain ⟨f, -, -, -, -, -, htap⟩ := tapLatch_mod (mask &&& latches)
  rw [htap]
  refine ⟨hmasks.events, ?_, ?_, ?_⟩
  · dsimp only
    rw [hmasks.setMods]
    rfl
  · dsimp only
    rw [hmasks.clearMods]
    rfl
  · simp only [hc, mapComponents, replace_mods _ _ _ _ hx]

/-- The group delta that a latch of a faked key remembers. -/
def latchDelta (group base : BitVec 32) : BitVec 32 :=
  groupLatchDelta (groupLatchPriv latchKeyDown (group - base))

/-- Tapping a group latch keeps the depressed group exactly when the delta fits. -/
theorem sub_latchDelta_eq_iff :
    group - latchDelta group base = base ↔ Bitfield.Fits 30 (group - base) := by
  have hfits : latchDelta group base = group - base ↔ _ :=
    Bitfield.high_pack_eq_iff (by decide) _ (by decide)
  rw [← hfits]
  constructor <;> intro h <;> bv_omega

/-- **What `update_latch_group` does**: the depressed group is set to the new latch and
then reduced by the delta that the filter remembers. -/
theorem updateLatchGroup_effect (hok : SlotsOk fr) :
    ∃ fr', updateLatchGroup km fr group = fr' ∧ SlotsOk fr' ∧ SameMasks fr fr' ∧ ∃ latched,
      fr'.state.components =
        { fr.state.components with
          baseGroup := group - latchDelta group fr.state.components.baseGroup
          latchedGroup := latched } := by
  refine ⟨_, rfl, ?_⟩
  unfold updateLatchGroup
  dsimp only
  obtain ⟨fr', heq, hok', hmasks, latched, hc⟩ := press_breakGroup km hok
  rw [heq]
  refine ⟨(quiet_tapLatch hok' (.group _)).1, ?_⟩
  obtain ⟨f, delta, hdelta, -, -, -, -, -, htap⟩ := tapLatch_group group
  rw [htap]
  refine ⟨⟨hmasks.1, hmasks.2, hmasks.3⟩, latched + delta, ?_⟩
  simp only [hc, hdelta, latchDelta]

/-! ### The whole update -/

/-- The latched modifiers after an update. -/
def updateLatchedMods (km : XkbKeymap) (update : XkbStateComponentsUpdate) (m : BitVec 32) :
    BitVec 32 :=
  (m &&& ~~~resolveToCanonicalMods km update.affectLatchedMods) |||
    (resolveToCanonicalMods km update.affectLatchedMods &&&
      resolveToCanonicalMods km update.latchedMods)

/-- The depressed group after an update: the latched layout passes through it. -/
def updateBaseGroup (update : XkbStateComponentsUpdate) (base : BitVec 32) : BitVec 32 :=
  if anyBit update.components xkbStateLayoutLatched
  then update.latchedLayout - latchDelta update.latchedLayout base else base

/-- The modifiers that an update latches, seen by the masks of the event. -/
def newLatches (km : XkbKeymap) (update : XkbStateComponentsUpdate) : BitVec 32 :=
  resolveToCanonicalMods km update.affectLatchedMods &&&
    resolveToCanonicalMods km update.latchedMods

/-- **What an out-of-band update of latches and locks leaves behind.** -/
structure LatchedLockedEffect (km : XkbKeymap) (update : XkbStateComponentsUpdate)
    (fr fr' : Frame) : Prop where
  slotsOk : SlotsOk fr'
  events : fr'.events = fr.events
  setMods : fr'.state.setMods = fr.state.setMods ||| newLatches km update
  clearMods : fr'.state.clearMods = fr.state.clearMods ||| newLatches km update
  components : ∃ latched, fr'.state.components =
    { updateLocks km update fr.state.components with
      latchedMods := updateLatchedMods km update fr.state.components.latchedMods
      baseGroup := updateBaseGroup update fr.state.components.baseGroup
      latchedGroup := if anyBit update.components xkbStateLayoutLatched then latched
        else fr.state.components.latchedGroup }

/-- Modifiers that are not affected need no separate case. -/
theorem updateLatchedMods_of_zero {km : XkbKeymap} {update : XkbStateComponentsUpdate}
    (h : resolveToCanonicalMods km update.affectLatchedMods = 0#32) {m : BitVec 32} :
    updateLatchedMods km update m = m ∧ newLatches km update = 0#32 := by
  rw [updateLatchedMods, newLatches, h, not_zero, and_allOnes, zero_and, or_zero]
  exact ⟨rfl, rfl⟩

theorem latchedLocked_effect (hok : SlotsOk fr) (update : XkbStateComponentsUpdate) :
    LatchedLockedEffect km update fr (stateUpdateLatchedLocked km fr update) := by
  -- the modifiers first, whether or not any are affected
  have hmods : ∃ fr₁, (if resolveToCanonicalMods km update.affectLatchedMods = 0#32
        then fr.mapComponents (updateLocks km update)
        else updateLatchModifiers km (fr.mapComponents (updateLocks km update))
          (resolveToCanonicalMods km update.affectLatchedMods)
          (resolveToCanonicalMods km update.latchedMods)) = fr₁ ∧ SlotsOk fr₁ ∧
      fr₁.events = fr.events ∧ fr₁.state.setMods = fr.state.setMods ||| newLatches km update ∧
      fr₁.state.clearMods = fr.state.clearMods ||| newLatches km update ∧
      fr₁.state.components =
        { updateLocks km update fr.state.components with
          latchedMods := updateLatchedMods km update fr.state.components.latchedMods } := by
    have hok₁ : SlotsOk (fr.mapComponents (updateLocks km update)) := hok.mapComponents _
    split
    · rename_i hzero
      obtain ⟨hlatched, hnew⟩ := updateLatchedMods_of_zero hzero
      exact ⟨_, rfl, hok₁, rfl, by simp [hnew, mapComponents],
        by simp [hnew, mapComponents], by rw [hlatched]; rfl⟩
    · exact updateLatchModifiers_effect km hok₁ _ _
  obtain ⟨fr₁, heq, hok₁, hev, hset, hclear, hc⟩ := hmods
  unfold stateUpdateLatchedLocked
  dsimp only
  rw [heq]
  by_cases hbit : anyBit update.components xkbStateLayoutLatched = true
  · rw [if_pos hbit]
    obtain ⟨fr₂, heq₂, hok₂, hmasks, latched, hc₂⟩ := updateLatchGroup_effect km hok₁
    rw [heq₂]
    refine ⟨hok₂, hmasks.events.trans hev, hmasks.setMods.trans hset,
      hmasks.clearMods.trans hclear, latched, ?_⟩
    simp only [hc₂, hc, updateBaseGroup, hbit, if_true, updateLocks]
  · rw [if_neg hbit]
    refine ⟨hok₁, hev, hset, hclear, 0#32, ?_⟩
    simp only [hc, updateBaseGroup, hbit, if_false, updateLocks, Bool.false_eq_true]

/-! ### Clearing all latches and locks -/

theorem modMaskGetEffective_zero : modMaskGetEffective km 0#32 = 0#32 := by
  simp [modMaskGetEffective]

theorem resolveToCanonicalMods_zero : resolveToCanonicalMods km 0#32 = 0#32 := by
  simp [resolveToCanonicalMods, modMaskGetEffective_zero]

/-- The modifiers that `clear_all_latches_and_locks` clears. -/
def clearableMods (km : XkbKeymap) : BitVec 32 := resolveToCanonicalMods km 0xffffffff#32

/-- The components after `clear_all_latches_and_locks`, up to the latched group. -/
def clearedComponents (km : XkbKeymap) (c : StateComponents) (latched : BitVec 32) :
    StateComponents :=
  { c with
    lockedMods := c.lockedMods &&& ~~~clearableMods km
    lockedGroup := 0#32
    latchedMods := c.latchedMods &&& ~~~clearableMods km
    baseGroup := 0#32 - latchDelta 0#32 c.baseGroup
    latchedGroup := latched }

/-- **What `clear_all_latches_and_locks` does**: nothing is latched anew, so the masks of
the event are left alone. -/
theorem clearAll_effect (hok : SlotsOk fr) :
    SlotsOk (clearAllLatchesAndLocks km fr) ∧ SameMasks fr (clearAllLatchesAndLocks km fr) ∧
      ∃ latched, (clearAllLatchesAndLocks km fr).state.components =
        clearedComponents km fr.state.components latched := by
  obtain ⟨hok', hev, hset, hclear, latched, hc⟩ := latchedLocked_effect km hok clearAllUpdate
  have hnew : newLatches km clearAllUpdate = 0#32 := by
    simp [newLatches, clearAllUpdate, resolveToCanonicalMods_zero]
  have hbit : anyBit clearAllUpdate.components xkbStateLayoutLatched = true := by decide
  have hbit' : anyBit clearAllUpdate.components xkbStateLayoutLocked = true := by decide
  rw [hnew, or_zero] at hset hclear
  refine ⟨hok', ⟨hset, hclear, hev⟩, latched, ?_⟩
  refine hc.trans ?_
  have hlocked : (updateLocks km clearAllUpdate fr.state.components).lockedMods =
      fr.state.components.lockedMods &&& ~~~clearableMods km := by
    simp only [updateLocks, clearAllUpdate, resolveToCanonicalMods_zero, zero_and,
      or_zero, clearableMods]
    split
    · rename_i h
      rw [h, not_zero, and_allOnes]
    · rfl
  simp only [updateLatchedMods, updateBaseGroup, hbit, if_true, clearedComponents, hlocked]
  simp only [updateLocks, hbit', if_true]
  simp only [clearAllUpdate, resolveToCanonicalMods_zero, and_zero, or_zero, clearableMods]

end Xkbcommon
