import Xkbcommon.Calls

/-!
# The derived state is consistent

After every public call the derived components – effective modifiers, locked and
effective group, indicators – are those of the raw ones. Two abstract definitions say
what “those of” means, without reference to the code: `Xkbcommon.wrapGroup`, the
policies for a layout out of range on integers, and `Xkbcommon.LedHolds`, the
condition of an indicator map. `Xkbcommon.deriveComponents_consistent` connects the
code to them.

Many calls write raw components, but every one of them derives as its last action on
the components, so the invariant over runs is just that the components *are* the
result of a derivation (`Xkbcommon.IsDerived`).
-/

namespace Xkbcommon

open Masks

variable {km : XkbKeymap} {s : XkbServerState} {state : XkbState} {sm : XkbMachine} {n number : ℕ}
  {g : ℤ} {policy : LayoutOutOfRangePolicy}

/-! ### Bringing a group into range -/

/-- **The policies for a layout out of range**, on integers. -/
def wrapGroup (g : ℤ) (n : ℕ) (policy : LayoutOutOfRangePolicy) (number : ℕ) : ℤ :=
  if 0 ≤ g ∧ g < n then g
  else match policy with
    | .redirect => if number < n then number else 0
    | .clamp => if g < 0 then 0 else n - 1
    | .wrap => g % n

theorem wrapGroup_range (hn : 0 < n) (g : ℤ) (policy : LayoutOutOfRangePolicy) (number : ℕ) :
    0 ≤ wrapGroup g n policy number ∧ wrapGroup g n policy number < n := by
  have hn' : (0 : ℤ) < n := by exact_mod_cast hn
  unfold wrapGroup
  split
  · assumption
  · cases policy with
    | wrap => exact ⟨Int.emod_nonneg _ hn'.ne', Int.emod_lt_of_pos _ hn'⟩
    | clamp | redirect => dsimp only; split <;> omega

theorem wrapGroup_of_range (h : 0 ≤ g ∧ g < n) : wrapGroup g n policy number = g := if_pos h

/-- The C remainder, corrected when it is negative, is the remainder of the integers. -/
theorem tmod_corrected (hn : 0 < n) :
    (if 0 ≤ g.tmod n then g.tmod n else g.tmod n + n) = g % n := by
  have hn' : (0 : ℤ) < n := by exact_mod_cast hn
  have hlo := Int.emod_nonneg g hn'.ne'
  have hhi := Int.emod_lt_of_pos g hn'
  rw [Int.tmod_eq_emod]
  split <;> rename_i hd
  · simp [hlo]
  · rw [Int.natAbs_natCast, if_neg (by omega), sub_add_cancel]

/-- **`XkbWrapGroupIntoRange` follows the policies.** -/
theorem xkbWrapGroupIntoRange_eq (hn : 0 < n) (g : BitVec 32) :
    xkbWrapGroupIntoRange g n policy number = some (wrapGroup g.toInt n policy number).toNat := by
  have hrange : (0 ≤ g.toInt ∧ g.toNat < n) ↔ (0 ≤ g.toInt ∧ g.toInt < n) := by
    rw [BitVec.toInt_eq_toNat_cond]
    split <;> omega
  unfold xkbWrapGroupIntoRange wrapGroup
  rw [if_neg hn.ne']
  by_cases hg : 0 ≤ g.toInt ∧ g.toInt < n
  · rw [if_pos (hrange.mpr hg), if_pos hg]
    have hnat : g.toInt = g.toNat := by
      have := hg.1
      rw [BitVec.toInt_eq_toNat_cond] at this ⊢
      split at this <;> omega
    rw [hnat, Int.toNat_natCast]
  · rw [if_neg fun h => hg (hrange.mp h), if_neg hg]
    cases policy with
    | wrap =>
      dsimp only
      rw [← tmod_corrected hn]
      split <;> rfl
    | clamp =>
      dsimp only
      split <;> simp
    | redirect =>
      dsimp only
      split
      · rw [if_neg (by omega)]; rfl
      · rw [if_pos (by omega)]; rfl

/-! ### Indicators -/

/-- **When an indicator is lit**, as its map says: one of its modifiers is in one of
the modifier components it looks at; or one of its groups is the effective or the
locked group, or the depressed or the latched group is set; or, for a map without
groups, the depressed or the latched group is not set; or one of its controls is
enabled. -/
def LedHolds (led : XkbLed) (c : StateComponents) : Prop :=
  (∃ i, led.mods.mask.getLsbD i = true ∧
    (anyBit led.whichMods xkbStateModsEffective = true ∧ c.mods.getLsbD i = true ∨
      anyBit led.whichMods xkbStateModsDepressed = true ∧ c.baseMods.getLsbD i = true ∨
      anyBit led.whichMods xkbStateModsLatched = true ∧ c.latchedMods.getLsbD i = true ∨
      anyBit led.whichMods xkbStateModsLocked = true ∧ c.lockedMods.getLsbD i = true)) ∨
  (led.groups ≠ 0#32 ∧
    (anyBit led.whichGroups xkbStateLayoutEffective = true ∧ led.groups.getLsbD c.group = true ∨
      anyBit led.whichGroups xkbStateLayoutLocked = true ∧
        led.groups.getLsbD c.lockedGroup.toNat = true ∨
      anyBit led.whichGroups xkbStateLayoutDepressed = true ∧ c.baseGroup ≠ 0#32 ∨
      anyBit led.whichGroups xkbStateLayoutLatched = true ∧ c.latchedGroup ≠ 0#32)) ∨
  (led.groups = 0#32 ∧
    (anyBit led.whichGroups xkbStateLayoutDepressed = true ∧ c.baseGroup = 0#32 ∨
      anyBit led.whichGroups xkbStateLayoutLatched = true ∧ c.latchedGroup = 0#32)) ∨
  ∃ i, led.ctrls.getLsbD i = true ∧ c.controls.getLsbD i = true

variable (led : XkbLed) (c : StateComponents) {i : ℕ} {update : XkbStateUpdate} {sm' : XkbMachine}
  {events : XkbEvents} {fr : Frame} {dir : KeyDirection}

theorem anyBit_ledModMask :
    anyBit led.mods.mask (ledModMask led c) = true ↔
      ∃ i, led.mods.mask.getLsbD i = true ∧
        (anyBit led.whichMods xkbStateModsEffective = true ∧ c.mods.getLsbD i = true ∨
          anyBit led.whichMods xkbStateModsDepressed = true ∧ c.baseMods.getLsbD i = true ∨
          anyBit led.whichMods xkbStateModsLatched = true ∧ c.latchedMods.getLsbD i = true ∨
          anyBit led.whichMods xkbStateModsLocked = true ∧ c.lockedMods.getLsbD i = true) := by
  rw [anyBit_iff]
  simp only [ledModMask, BitVec.getLsbD_or, Bool.or_eq_true, getLsbD_ite_zero, or_assoc]

theorem anyBit_ledGroupMask (hg : c.group < 32) (hl : c.lockedGroup.toNat < 32)
    (h0 : led.groups ≠ 0#32) :
    anyBit led.groups (ledGroupMask led c) = true ↔
      (anyBit led.whichGroups xkbStateLayoutEffective = true ∧ led.groups.getLsbD c.group = true ∨
        anyBit led.whichGroups xkbStateLayoutLocked = true ∧
          led.groups.getLsbD c.lockedGroup.toNat = true ∨
        anyBit led.whichGroups xkbStateLayoutDepressed = true ∧ c.baseGroup ≠ 0#32 ∨
        anyBit led.whichGroups xkbStateLayoutLatched = true ∧ c.latchedGroup ≠ 0#32) := by
  have hself : anyBit led.groups led.groups = true := (anyBit_self_iff _).mpr h0
  simp only [ledGroupMask, anyBit_or_right, Bool.or_eq_true, anyBit_ite_zero,
    anyBit_one_shiftLeft _ hg, anyBit_one_shiftLeft _ hl, hself, Bool.and_eq_true, bne_iff_ne,
    and_true, or_assoc]

/-- **The loop body of `xkb_state_led_update_all` decides the indicator map**, once the
effective and the locked group are in range. -/
theorem ledIsLit_iff (hg : c.group < 32) (hl : c.lockedGroup.toNat < 32) :
    ledIsLit led c = true ↔ LedHolds led c := by
  have hmods : (led.whichMods != 0#32 && led.mods.mask != 0#32 &&
      anyBit led.mods.mask (ledModMask led c)) = anyBit led.mods.mask (ledModMask led c) := by
    by_cases hw : led.whichMods = 0#32
    · simp [hw, ledModMask]
    · by_cases hm : led.mods.mask = 0#32 <;> simp [hw, hm]
  unfold ledIsLit LedHolds
  rw [hmods, ← anyBit_ledModMask, ← anyBit_iff led.ctrls]
  by_cases h0 : led.groups = 0#32
  · by_cases hw : led.whichGroups = 0#32 <;> simp [h0, hw]
  · rw [← anyBit_ledGroupMask led c hg hl h0]
    by_cases hw : led.whichGroups = 0#32 <;> simp [h0, hw, ledGroupMask]

/-- The loop of `xkb_state_led_update_all`, started at indicator `n`. -/
theorem getLsbD_foldl_leds (lit : XkbLed → Bool) (leds : List XkbLed) (acc : BitVec 32)
    (hi : i < 32) :
    ((leds.zipIdx n).foldl
        (fun acc led => if lit led.1 then acc ||| (1#32 <<< led.2) else acc) acc).getLsbD i = true ↔
      acc.getLsbD i = true ∨ ∃ led, n ≤ i ∧ leds[i - n]? = some led ∧ lit led = true := by
  induction leds generalizing n acc with
  | nil => simp
  | cons led leds ih =>
    rw [List.zipIdx_cons, List.foldl_cons, ih]
    have hacc : (if lit led then acc ||| (1#32 <<< n) else acc).getLsbD i = true ↔
        acc.getLsbD i = true ∨ lit led = true ∧ i = n := by
      cases lit led with
      | false => simp
      | true => rw [if_pos rfl, BitVec.getLsbD_or, Bool.or_eq_true, getLsbD_one_shiftLeft hi]; simp
    rw [hacc, or_assoc]
    refine or_congr Iff.rfl ?_
    -- the indicator at hand is the one at distance zero, the others are one step nearer
    rcases lt_trichotomy i n with h | rfl | h
    · constructor
      · rintro (⟨-, rfl⟩ | ⟨led', hle, -⟩) <;> omega
      · rintro ⟨led', hle, -⟩
        omega
    · simp
    · have hsub : i - n = (i - (n + 1)) + 1 := by omega
      rw [hsub, List.getElem?_cons_succ]
      constructor
      · rintro (⟨-, rfl⟩ | ⟨led', hle, hget, hlit⟩)
        · omega
        · exact ⟨led', by omega, hget, hlit⟩
      · rintro ⟨led', -, hget, hlit⟩
        exact .inr ⟨led', by omega, hget, hlit⟩

/-- **An indicator is on exactly when its map holds.** -/
theorem getLsbD_xkbStateLedUpdateAll (c : StateComponents) (hg : c.group < 32)
    (hl : c.lockedGroup.toNat < 32) (hi : i < 32) :
    (xkbStateLedUpdateAll km c).leds.getLsbD i = true ↔
      ∃ led, km.leds[i]? = some led ∧ LedHolds led c := by
  rw [xkbStateLedUpdateAll, getLsbD_foldl_leds (fun led => ledIsLit led c) km.leds 0#32 hi]
  simp [ledIsLit_iff _ c hg hl]

/-! ### Consistent components -/

/-- The sum of the groups, on integers. -/
def groupSum (c : StateComponents) : ℤ :=
  c.baseGroup.toInt + c.latchedGroup.toInt + c.lockedGroup.toInt

/-- The sum of the groups fits an `int32_t`. -/
def NoOverflow (c : StateComponents) : Prop := -2 ^ 31 ≤ groupSum c ∧ groupSum c < 2 ^ 31

instance (c : StateComponents) : Decidable (NoOverflow c) := by
  unfold NoOverflow
  infer_instance

/-- **Consistency of the derived components** with the raw ones. -/
structure Consistent (km : XkbKeymap) (range : OutOfRangeGroup) (c : StateComponents) : Prop where
  mods_eq : c.mods = c.baseMods ||| c.latchedMods ||| c.lockedMods
  lockedGroup_range : 0 ≤ c.lockedGroup.toInt ∧ c.lockedGroup.toInt < km.numGroups
  group_lt : c.group < km.numGroups
  wrap_eq : xkbWrapGroupIntoRange (c.baseGroup + c.latchedGroup + c.lockedGroup) km.numGroups
    range.policy range.redirectGroup = some c.group
  group_eq : (c.group : ℤ) = wrapGroup (groupSum c) km.numGroups range.policy range.redirectGroup
  leds_iff : ∀ i < 32, c.leds.getLsbD i = true ↔ ∃ led, km.leds[i]? = some led ∧ LedHolds led c

theorem toInt_groups {c : StateComponents} (h : NoOverflow c) :
    (c.baseGroup + c.latchedGroup + c.lockedGroup).toInt = groupSum c := by
  obtain ⟨hlo, hhi⟩ := h
  rw [BitVec.toInt_add, BitVec.toInt_add, Int.bmod_add_bmod]
  exact Int.bmod_eq_of_le_mul_two (by simp only [groupSum] at *; omega)
    (by simp only [groupSum] at *; omega)

section Derive

variable (km : XkbKeymap) (range : OutOfRangeGroup) (c : StateComponents)

/-! The raw components are kept, but for the locked group. -/

@[simp] theorem deriveComponents_baseGroup :
    (deriveComponents km range c).baseGroup = c.baseGroup := rfl
@[simp] theorem deriveComponents_latchedGroup :
    (deriveComponents km range c).latchedGroup = c.latchedGroup := rfl
@[simp] theorem deriveComponents_baseMods :
    (deriveComponents km range c).baseMods = c.baseMods := rfl
@[simp] theorem deriveComponents_latchedMods :
    (deriveComponents km range c).latchedMods = c.latchedMods := rfl
@[simp] theorem deriveComponents_lockedMods :
    (deriveComponents km range c).lockedMods = c.lockedMods := rfl
@[simp] theorem deriveComponents_controls :
    (deriveComponents km range c).controls = c.controls := rfl
@[simp] theorem deriveComponents_mods :
    (deriveComponents km range c).mods = c.baseMods ||| c.latchedMods ||| c.lockedMods := rfl

variable {km}

/-- The locked group is brought into range by the policy. -/
theorem deriveComponents_lockedGroup (hn : 0 < km.numGroups) :
    (deriveComponents km range c).lockedGroup =
      BitVec.ofNat 32 (wrapGroup c.lockedGroup.toInt km.numGroups range.policy
        range.redirectGroup).toNat := by
  unfold deriveComponents xkbStateLedUpdateAll
  simp only [xkbWrapGroupIntoRange_eq hn, Option.getD_some]

theorem deriveComponents_lockedGroup_toInt (hn : 0 < km.numGroups) :
    (deriveComponents km range c).lockedGroup.toInt =
      wrapGroup c.lockedGroup.toInt km.numGroups range.policy range.redirectGroup := by
  obtain ⟨hlo, hhi⟩ := wrapGroup_range hn c.lockedGroup.toInt range.policy range.redirectGroup
  have := km.numGroups_le
  rw [deriveComponents_lockedGroup range c hn, BitVec.toInt_ofNat']
  rw [Int.bmod_eq_of_le_mul_two (by omega) (by omega), Int.toNat_of_nonneg hlo]

/-- The effective group is the one that the code's own function gives. -/
theorem deriveComponents_wrap (hn : 0 < km.numGroups) :
    xkbWrapGroupIntoRange (c.baseGroup + c.latchedGroup + (deriveComponents km range c).lockedGroup)
      km.numGroups range.policy range.redirectGroup = some (deriveComponents km range c).group := by
  unfold deriveComponents xkbStateLedUpdateAll
  simp only [xkbWrapGroupIntoRange_eq hn, Option.getD_some]

/-- **Deriving makes the components consistent.** -/
theorem deriveComponents_consistent (hn : 0 < km.numGroups)
    (ho : NoOverflow (deriveComponents km range c)) :
    Consistent km range (deriveComponents km range c) := by
  have hle := km.numGroups_le
  have hlocked : 0 ≤ (deriveComponents km range c).lockedGroup.toInt ∧
      (deriveComponents km range c).lockedGroup.toInt < km.numGroups := by
    rw [deriveComponents_lockedGroup_toInt range c hn]
    exact wrapGroup_range hn _ _ _
  have hwrap := deriveComponents_wrap range c hn
  have hgroup : ((deriveComponents km range c).group : ℤ) =
      wrapGroup (groupSum (deriveComponents km range c)) km.numGroups range.policy
        range.redirectGroup := by
    rw [xkbWrapGroupIntoRange_eq hn, Option.some.injEq] at hwrap
    rw [← hwrap, Int.toNat_of_nonneg (wrapGroup_range hn _ _ _).1, ← toInt_groups ho]
    rfl
  have hlt : (deriveComponents km range c).group < km.numGroups := by
    have := (wrapGroup_range hn (groupSum (deriveComponents km range c)) range.policy
      range.redirectGroup).2
    omega
  refine ⟨rfl, hlocked, hlt, hwrap, hgroup, fun i hi => ?_⟩
  refine getLsbD_xkbStateLedUpdateAll _ ?_ ?_ hi
  · exact hlt.trans_le hle
  · have hnat : (deriveComponents km range c).lockedGroup.toNat < 32 := by
      have := hlocked
      rw [BitVec.toInt_eq_toNat_cond] at this
      split at this <;> omega
    exact hnat

end Derive

/-! ### The invariant over runs -/

/-- The components of a state are the result of a derivation under its own policy. -/
def IsDerived (km : XkbKeymap) (state : XkbState) : Prop :=
  ∃ c, state.components = deriveComponents km state.outOfRangeGroup c

/-- A locked group that was brought into range is left alone from then on, whatever the
policy. -/
theorem IsDerived.lockedGroup (h : IsDerived km state) (range : OutOfRangeGroup)
    {c : StateComponents} (hc : c.lockedGroup = state.components.lockedGroup) :
    (deriveComponents km range c).lockedGroup = c.lockedGroup := by
  obtain ⟨c₀, hc₀⟩ := h
  rw [hc₀] at hc
  rcases Nat.eq_zero_or_pos km.numGroups with hn | hn
  · rw [hc]
    simp [deriveComponents, xkbStateLedUpdateAll, xkbWrapGroupIntoRange, hn]
  · rw [← BitVec.toInt_inj, deriveComponents_lockedGroup_toInt range c hn, hc,
      deriveComponents_lockedGroup_toInt _ c₀ hn]
    exact wrapGroup_of_range (wrapGroup_range hn _ _ _)

theorem isDerived_updateDerived : IsDerived km (fr.updateDerived km).state.toXkbState := ⟨_, rfl⟩

theorem isDerived_xkbStateUpdateDerived : IsDerived km (xkbStateUpdateDerived km state) := ⟨_, rfl⟩

theorem isDerived_handleKey (k : KeyRef) :
    IsDerived km (handleKey km fr k dir).state.toXkbState := isDerived_updateDerived

theorem IsDerived.updateMask (h : IsDerived km state) (bm am lm bg ag lg : BitVec 32) :
    IsDerived km (xkbStateUpdateMask km state bm am lm bg ag lg).1 := by
  unfold xkbStateUpdateMask
  split
  · exact h
  · exact isDerived_xkbStateUpdateDerived

/-- A successful update ends with a derivation. -/
theorem isDerived_applyStateUpdate {fr' : Frame} (h : applyStateUpdate km fr update = .ok fr') :
    IsDerived km fr'.state.toXkbState := by
  obtain ⟨range, -, rfl⟩ := exists_of_map_eq_ok h
  exact isDerived_updateDerived

theorem IsDerived.exec (h : IsDerived km s.toXkbState) (call : ServerCall) :
    IsDerived km (call.exec km s).toXkbState := by
  generalize heq : call.exec km s = s'
  cases ServerCall.executed heq with
  | kept => exact h
  | updateKey => exact isDerived_handleKey _
  | updateMask bm am lm bg ag lg => exact h.updateMask bm am lm bg ag lg
  | updateLatchedLocked => exact isDerived_updateDerived
  | updateSynthetic hfr => exact isDerived_applyStateUpdate hfr

/-- Every reachable server state is derived. -/
theorem ServerReachable.isDerived (h : ServerReachable km s) : IsDerived km s.toXkbState := by
  induction h with
  | init mode affect flags => exact isDerived_xkbStateUpdateDerived
  | call c _ ih => exact ih.exec c

/-- Every reachable client state is derived. -/
theorem ClientReachable.isDerived (h : ClientReachable km state) : IsDerived km state := by
  induction h with
  | init mode => exact isDerived_xkbStateUpdateDerived
  | updateMask bm am lm bg ag lg _ ih => exact ih.updateMask bm am lm bg ag lg

/-- The last event and the overlays leave the inner state alone. -/
theorem finishEvents_base (previous : StateComponents) (queue : List XkbEvent) :
    (finishEvents km previous sm queue).1.base = sm.base := by
  simp only [finishEvents]
  split
  · rfl
  · dsimp only
    split <;> rfl

/-- **What `xkb_machine_process_key` does with a key event**: nothing if the key is
ignored, and otherwise `Xkbcommon.processResolvedKey`, for the key that the overlays put
in its place. -/
theorem xkbMachineProcessKey_cases {kc : ℕ}
    (h : xkbMachineProcessKey km sm kc dir = some (sm', events)) :
    (eventKey km kc dir = none ∧ sm' = sm ∧ events = {}) ∨
    ∃ k k', eventKey km kc dir = some k ∧ derefKey km (overlaidKey sm.overlays k dir).2 = some k' ∧
      processResolvedKey km sm (overlaidKey sm.overlays k dir).1 k' dir = (sm', events) := by
  unfold xkbMachineProcessKey at h
  split at h
  · rename_i hk
    cases h
    exact .inl ⟨hk, rfl, rfl⟩
  · rename_i k hk
    obtain ⟨k', hk', heq⟩ := Option.map_eq_some_iff.mp h
    exact .inr ⟨k, k', hk, hk', heq⟩

/-- **What a successful `xkb_machine_process_synthetic` does.** -/
theorem xkbMachineProcessSynthetic_cases {events' : XkbEvents}
    (h : xkbMachineProcessSynthetic km sm update events = .ok (sm', events')) :
    ∃ fr, applyStateUpdate km ⟨sm.base, some events.queue⟩ update = .ok fr ∧
      finishEvents km sm.base.components { sm with base := fr.state } (fr.events.getD []) =
        (sm', events'.queue) ∧ events'.next = events.next := by
  obtain ⟨fr, hfr, heq⟩ := exists_of_map_eq_ok h
  cases heq
  exact ⟨fr, hfr, rfl, rfl⟩

/-- Every reachable machine is derived. -/
theorem MachineReachable.isDerived (h : MachineReachable km sm) :
    IsDerived km sm.base.toXkbState := by
  induction h with
  | init builder => exact isDerived_xkbStateUpdateDerived
  | processKey kc dir _ hp ih =>
    obtain ⟨-, rfl, -⟩ | ⟨k, k', -, -, heq⟩ := xkbMachineProcessKey_cases hp
    · exact ih
    · have hbase := congrArg (fun r => r.1.base) heq
      dsimp only [processResolvedKey] at hbase
      rw [finishEvents_base] at hbase
      rw [← hbase]
      exact isDerived_handleKey _
  | processSynthetic update _ hp _ =>
    obtain ⟨fr, hfr, heq, -⟩ := xkbMachineProcessSynthetic_cases hp
    have hbase := congrArg (fun r => r.1.base) heq
    dsimp only at hbase
    rw [finishEvents_base] at hbase
    rw [← hbase]
    exact isDerived_applyStateUpdate hfr
  | call c _ ih => exact ih.exec c

/-- **The derived state is always consistent**: after any calls on a server state, a
client state or a machine, the effective modifiers, the locked and the effective group
and the indicators are those of the raw components. The keymap has a layout, and the
sum of the groups fits its type. -/
theorem reachable_consistent (km : XkbKeymap) (hn : 0 < km.numGroups) :
    (∀ s, ServerReachable km s → NoOverflow s.components →
      Consistent km s.outOfRangeGroup s.components) ∧
    (∀ state, ClientReachable km state → NoOverflow state.components →
      Consistent km state.outOfRangeGroup state.components) ∧
    (∀ sm, MachineReachable km sm → NoOverflow sm.base.components →
      Consistent km sm.base.outOfRangeGroup sm.base.components) := by
  have main : ∀ state : XkbState, IsDerived km state → NoOverflow state.components →
      Consistent km state.outOfRangeGroup state.components := by
    rintro state ⟨c, hc⟩ ho
    rw [hc] at ho ⊢
    exact deriveComponents_consistent _ c hn ho
  exact ⟨fun s h => main _ h.isDerived, fun state h => main _ h.isDerived,
    fun sm h => main _ h.isDerived⟩

/-- Two layouts, and an indicator for the second one. -/
def ledKeymap : XkbKeymap where
  leds := [{ whichGroups := xkbStateLayoutEffective, groups := 2#32 }]
  numGroups := 2

/-- A locked layout out of range is brought into range and lights the indicator. -/
theorem reachable_consistent_ledKeymap :
    ∃ s, s = ServerCall.exec ledKeymap (xkbStateNew ledKeymap)
        (.updateLatchedLocked 0#32 0#32 false 0#32 0#32 0#32 true 3#32) ∧
      Consistent ledKeymap s.outOfRangeGroup s.components ∧ s.components.leds = 1#32 :=
  ⟨_, rfl, (reachable_consistent ledKeymap (by decide)).1 _
    (.call _ (serverReachable_xkbStateNew ledKeymap)) (by decide), by decide⟩

end Xkbcommon
