import Xkbcommon.Invariant

/-!
# What an out-of-band update may change

The documentation of `struct xkb_state_components_update` says that each of its groups
of fields is considered only if the matching bit of `components` is set, and nothing of
what the keys hold down is among them. `Xkbcommon.Gated` is this contract, for the call
of `state_update_enabled_controls` and `state_update_latched_locked` that
`xkb_state_update_synthetic` and `xkb_machine_process_synthetic` share. Clearing all
latches and locks when the sticky keys get disabled is part of the contract, so the
latches and locks are compared with what is left of them after that.

The code looks at the bits of the layouts, but not at those of the modifiers and of the
controls; and it passes the latched layout through the depressed one, with a group delta
of 30 bits. `Xkbcommon.updateComponents_gated_iff` says which updates still keep the
contract.
-/

namespace Xkbcommon

open Masks

/-! ### The group delta of 30 bits -/

theorem setWidth_sub (x y : BitVec 32) : (x - y).setWidth 30 = x.setWidth 30 - y.setWidth 30 := by
  bv_omega

/-- The delta depends on the low bits of the depressed group only, and these are kept. -/
theorem latchDelta_sub_latchDelta (group group' base : BitVec 32) :
    latchDelta group (group' - latchDelta group' base) = latchDelta group base := by
  have hlow : (group' - latchDelta group' base).setWidth 30 = base.setWidth 30 := by
    have h : (latchDelta group' base).setWidth 30 = (group' - base).setWidth 30 :=
      Bitfield.setWidth_high_pack (n := 2) (w := 32) (by decide) (by decide)
    rw [setWidth_sub, h, setWidth_sub]
    bv_omega
  have hdelta : ∀ d, latchDelta group d = ((group - d).setWidth 30).signExtend 32 :=
    fun d => Bitfield.high_pack (by decide) (by decide)
  rw [hdelta, hdelta, setWidth_sub, hlow, ← setWidth_sub]

/-! ### The contract -/

section Contract

variable (km : XkbKeymap) (update : XkbStateComponentsUpdate)

/-- **The contract of an out-of-band update**: what the keys hold down is not touched,
and the other components change only with their bit in the update. Latches and locks are
compared with a reference, what is left of them when the sticky keys get disabled. -/
structure Gated (before reference after : XkbServerState) : Prop where
  baseMods : after.components.baseMods = before.components.baseMods
  baseGroup : after.components.baseGroup = before.components.baseGroup
  modKeyCount : after.modKeyCount = before.modKeyCount
  controls : after.components.controls ≠ before.components.controls →
    anyBit update.components xkbStateControls = true
  latchedMods : after.components.latchedMods ≠ reference.components.latchedMods →
    anyBit update.components xkbStateModsLatched = true
  lockedMods : after.components.lockedMods ≠ reference.components.lockedMods →
    anyBit update.components xkbStateModsLocked = true
  latchedGroup : after.components.latchedGroup ≠ reference.components.latchedGroup →
    anyBit update.components xkbStateLayoutLatched = true
  lockedGroup : after.components.lockedGroup ≠ reference.components.lockedGroup →
    anyBit update.components xkbStateLayoutLocked = true

/-- Whether an update disables the sticky keys of a state. -/
def XkbStateComponentsUpdate.disablesStickyKeys (c : StateComponents) : Bool :=
  disablesSticky update.affectControls update.controls c.controls

/-- The reference for the latches and locks: the state itself, unless the sticky keys get
disabled. -/
def gateReference (s : XkbServerState) (range : OutOfRangeGroup) (events : Option (List XkbEvent)) :
    XkbServerState :=
  if update.disablesStickyKeys s.components then
    (stateUpdateEnabledControls km ⟨{ s with outOfRangeGroup := range }, events⟩
      update.affectControls update.controls).state
  else s

/-- Latched or locked modifiers, less those cleared when the sticky keys get disabled. -/
def keptMods (c : StateComponents) (m : BitVec 32) : BitVec 32 :=
  if update.disablesStickyKeys c then m &&& ~~~clearableMods km else m

/-- **When an update keeps the contract**, as a condition on the update and the components
before it: the group deltas fit, and whatever is requested without its bit is the case
already. -/
structure UpdateFits (c : StateComponents) : Prop where
  latchedLayout : anyBit update.components xkbStateLayoutLatched = true →
    Bitfield.Fits 30 (update.latchedLayout - c.baseGroup)
  clearedLayout : anyBit update.components xkbStateLayoutLatched = false →
    update.disablesStickyKeys c = true → Bitfield.Fits 30 (0#32 - c.baseGroup)
  controls : anyBit update.components xkbStateControls = false →
    update.affectControls &&& controlAllBoolean &&& (update.controls ^^^ c.controls) = 0#32
  latchedMods : anyBit update.components xkbStateModsLatched = false →
    resolveToCanonicalMods km update.affectLatchedMods &&&
      (resolveToCanonicalMods km update.latchedMods ^^^ keptMods km update c c.latchedMods) = 0#32
  lockedMods : anyBit update.components xkbStateModsLocked = false →
    resolveToCanonicalMods km update.affectLockedMods &&&
      (resolveToCanonicalMods km update.lockedMods ^^^ keptMods km update c c.lockedMods) = 0#32

variable {km}

/-- The depressed group after both steps: what the first step does to it does not matter
to the second. -/
theorem updateBaseGroup_eq_iff (dis : Bool) (base : BitVec 32) :
    updateBaseGroup update (if dis then 0#32 - latchDelta 0#32 base else base) = base ↔
      (anyBit update.components xkbStateLayoutLatched = true →
        Bitfield.Fits 30 (update.latchedLayout - base)) ∧
      (anyBit update.components xkbStateLayoutLatched = false → dis = true →
        Bitfield.Fits 30 (0#32 - base)) := by
  have hsame : latchDelta update.latchedLayout
      (if dis then 0#32 - latchDelta 0#32 base else base) =
        latchDelta update.latchedLayout base := by
    split
    · exact latchDelta_sub_latchDelta _ _ _
    · rfl
  unfold updateBaseGroup
  rw [hsame]
  cases anyBit update.components xkbStateLayoutLatched with
  | true => simp [sub_latchDelta_eq_iff]
  | false =>
    cases dis with
    | true => simp only [Bool.false_eq_true, if_false, if_true, sub_latchDelta_eq_iff]; simp
    | false => simp

/-- The locked modifiers, with or without affected ones. -/
theorem updateLocks_lockedMods (c : StateComponents) :
    (updateLocks km update c).lockedMods =
      (c.lockedMods &&& ~~~resolveToCanonicalMods km update.affectLockedMods) |||
        (resolveToCanonicalMods km update.affectLockedMods &&&
          resolveToCanonicalMods km update.lockedMods) := by
  simp only [updateLocks]
  split
  · rename_i h
    rw [h, BitVec.not_zero, BitVec.and_allOnes, BitVec.zero_and, BitVec.or_zero]
  · rw [BitVec.and_comm (resolveToCanonicalMods km update.lockedMods)]

/-- What the first step leaves of the components that matter to the contract. -/
theorem enabledControls_components {s : XkbServerState} (hok : FiltersOk s)
    (hs : IsDerived km s.toXkbState) (range : OutOfRangeGroup) (events : Option (List XkbEvent)) :
    ∃ mid, stateUpdateEnabledControls km ⟨{ s with outOfRangeGroup := range }, events⟩
        update.affectControls update.controls = mid ∧ SlotsOk mid ∧
      mid.state.modKeyCount = s.modKeyCount ∧
      mid.state.components.baseMods = s.components.baseMods ∧
      mid.state.components.baseGroup =
        (if update.disablesStickyKeys s.components then
          0#32 - latchDelta 0#32 s.components.baseGroup else s.components.baseGroup) ∧
      mid.state.components.controls =
        updateControls update.affectControls update.controls s.components.controls ∧
      mid.state.components.latchedMods = keptMods km update s.components s.components.latchedMods ∧
      mid.state.components.lockedMods = keptMods km update s.components s.components.lockedMods ∧
      (gateReference km update s range events).components.latchedMods =
        mid.state.components.latchedMods ∧
      (gateReference km update s range events).components.lockedMods =
        mid.state.components.lockedMods ∧
      (gateReference km update s range events).components.latchedGroup =
        mid.state.components.latchedGroup ∧
      (gateReference km update s range events).components.lockedGroup =
        mid.state.components.lockedGroup := by
  have hok' : SlotsOk ⟨{ s with outOfRangeGroup := range }, events⟩ := hok
  have he := enabledControls_effect km hok' update.affectControls update.controls
  unfold gateReference
  generalize stateUpdateEnabledControls km ⟨{ s with outOfRangeGroup := range }, events⟩
    update.affectControls update.controls = mid at he ⊢
  obtain ⟨latched, hc⟩ := he.components
  refine ⟨mid, rfl, he.slotsOk, he.setup.modKeyCount, ?_⟩
  unfold keptMods
  by_cases hd : update.disablesStickyKeys s.components = true
  · rw [if_pos hd]
    simp only [hd, if_true, and_self, and_true]
    have hd' : disablesSticky update.affectControls update.controls s.components.controls = true :=
      hd
    simp only [hc, hd', if_true]
    exact ⟨rfl, rfl, rfl, rfl, rfl⟩
  · rw [if_neg hd]
    have hd' : ¬disablesSticky update.affectControls update.controls s.components.controls = true :=
      hd
    have hlocked := hs.lockedGroup range (c := { s.components with
      controls := updateControls update.affectControls update.controls s.components.controls }) rfl
    simp only [hc, hd, hd', if_false, Bool.false_eq_true]
    exact ⟨rfl, rfl, rfl, rfl, rfl, rfl, rfl, rfl, hlocked.symm⟩

/-- **Which out-of-band updates keep the contract**: for every reachable server state, and
whatever policy and queue the update runs with, exactly those that fit. -/
theorem updateComponents_gated_iff {s : XkbServerState}
    (h : ServerReachable km s ∨ ∃ sm, MachineReachable km sm ∧ sm.base = s)
    (range : OutOfRangeGroup) (events : Option (List XkbEvent)) :
    Gated update s (gateReference km update s range events)
        (updateComponents km ⟨{ s with outOfRangeGroup := range }, events⟩ (some update)).state ↔
      UpdateFits km update s.components := by
  have hinv : FiltersOk s ∧ IsDerived km s.toXkbState := by
    rcases h with h | ⟨sm, h, rfl⟩
    · exact ⟨h.filtersOk, h.isDerived⟩
    · exact ⟨h.filtersOk, h.isDerived⟩
  obtain ⟨mid, heq, hok, hcount, hbase, hgroup, hctrls, hlatch, hlock, hr₁, hr₂, hr₃, hr₄⟩ :=
    enabledControls_components update hinv.1 hinv.2 range events
  obtain ⟨latched, hc⟩ := (latchedLocked_effect km hok update).components
  have hcount' := (footprint_stateUpdateLatchedLocked km mid update).modKeyCount
  simp only [updateComponents, heq]
  generalize stateUpdateLatchedLocked km mid update = fr' at hcount' hc ⊢
  -- the components after both steps, one at a time
  have hbase' : fr'.state.components.baseMods = s.components.baseMods := by rw [hc, ← hbase]; rfl
  have hgroup' : fr'.state.components.baseGroup = updateBaseGroup update
      (if update.disablesStickyKeys s.components then
        0#32 - latchDelta 0#32 s.components.baseGroup else s.components.baseGroup) := by
    rw [hc, ← hgroup]
  have hctrls' : fr'.state.components.controls =
      (s.components.controls &&& ~~~(update.affectControls &&& controlAllBoolean)) |||
        (update.affectControls &&& controlAllBoolean &&& update.controls) := by
    rw [hc, BitVec.and_comm (update.affectControls &&& controlAllBoolean) update.controls]
    exact hctrls
  have hlatch' : fr'.state.components.latchedMods =
      updateLatchedMods km update (keptMods km update s.components s.components.latchedMods) := by
    rw [hc, ← hlatch]
  have hlock' : fr'.state.components.lockedMods =
      (keptMods km update s.components s.components.lockedMods &&&
        ~~~resolveToCanonicalMods km update.affectLockedMods) |||
        (resolveToCanonicalMods km update.affectLockedMods &&&
          resolveToCanonicalMods km update.lockedMods) := by
    rw [hc, ← hlock]
    exact updateLocks_lockedMods update _
  have hlatched' : anyBit update.components xkbStateLayoutLatched = false →
      fr'.state.components.latchedGroup = mid.state.components.latchedGroup := by
    intro hb
    simp [hc, hb]
  have hlocked' : anyBit update.components xkbStateLayoutLocked = false →
      fr'.state.components.lockedGroup = mid.state.components.lockedGroup := by
    intro hb
    simp [hc, hb, updateLocks]
  -- “changed only with the bit” is “the same without the bit”
  have hbit : ∀ {α : Type} {x y : α} {b : Bool}, (x ≠ y → b = true) ↔ (b = false → x = y) := by
    intro α x y b
    rw [ne_eq, not_imp_comm, Bool.not_eq_true]
  rw [hlatch] at hr₁
  rw [hlock] at hr₂
  constructor
  · rintro ⟨-, hg, -, hctrl, hlm, hkm, -, -⟩
    rw [hgroup', updateBaseGroup_eq_iff] at hg
    rw [hbit, hctrls', replace_eq_iff] at hctrl
    rw [hbit, hlatch', hr₁, updateLatchedMods, replace_eq_iff] at hlm
    rw [hbit, hlock', hr₂, replace_eq_iff] at hkm
    exact ⟨hg.1, hg.2, hctrl, hlm, hkm⟩
  · rintro ⟨hlay, hclr, hctrl, hlm, hkm⟩
    refine ⟨hbase', ?_, hcount'.trans hcount, ?_, ?_, ?_, ?_, ?_⟩
    · rw [hgroup', updateBaseGroup_eq_iff]
      exact ⟨hlay, hclr⟩
    · rw [hbit, hctrls', replace_eq_iff]
      exact hctrl
    · rw [hbit, hlatch', hr₁, updateLatchedMods, replace_eq_iff]
      exact hlm
    · rw [hbit, hlock', hr₂, replace_eq_iff]
      exact hkm
    · rw [hbit, hr₃]
      exact hlatched'
    · rw [hbit, hr₄]
      exact hlocked'

end Contract

/-- Latching a modifier and a layout of a new state keeps the contract. -/
theorem updateComponents_gated_latches :
    Gated
      { components := xkbStateModsLatched ||| xkbStateLayoutLatched, affectLatchedMods := 1#32,
        latchedMods := 1#32, latchedLayout := 1#32 }
      (xkbStateNew {})
      (gateReference {}
        { components := xkbStateModsLatched ||| xkbStateLayoutLatched, affectLatchedMods := 1#32,
          latchedMods := 1#32, latchedLayout := 1#32 } (xkbStateNew {}) {} none)
      (updateComponents {} ⟨{ xkbStateNew {} with outOfRangeGroup := {} }, none⟩
        (some
          { components := xkbStateModsLatched ||| xkbStateLayoutLatched, affectLatchedMods := 1#32,
            latchedMods := 1#32, latchedLayout := 1#32 })).state :=
  (updateComponents_gated_iff _ (Or.inl (serverReachable_xkbStateNew {})) {} none).mpr
    ⟨by decide, by decide, by decide, by decide, by decide⟩

/-- A latched layout of `2 ^ 29` changes the depressed group of a new state, and modifiers
get locked without the bit of the locked modifiers. -/
theorem updateComponents_not_gated :
    ServerReachable {} (xkbStateNew {}) ∧
      ¬Gated { components := xkbStateLayoutLatched, latchedLayout := 0x20000000#32 }
        (xkbStateNew {})
        (gateReference {} { components := xkbStateLayoutLatched, latchedLayout := 0x20000000#32 }
          (xkbStateNew {}) {} none)
        (updateComponents {} ⟨{ xkbStateNew {} with outOfRangeGroup := {} }, none⟩
          (some { components := xkbStateLayoutLatched, latchedLayout := 0x20000000#32 })).state ∧
      ¬Gated { affectLockedMods := 1#32, lockedMods := 1#32 } (xkbStateNew {})
        (gateReference {} { affectLockedMods := 1#32, lockedMods := 1#32 } (xkbStateNew {}) {} none)
        (updateComponents {} ⟨{ xkbStateNew {} with outOfRangeGroup := {} }, none⟩
          (some { affectLockedMods := 1#32, lockedMods := 1#32 })).state := by
  refine ⟨serverReachable_xkbStateNew {}, fun h => ?_, fun h => ?_⟩
  · cases h.baseGroup
  · cases h.lockedMods (by decide)

end Xkbcommon
