import Xkbcommon.Invariant

/-!
# Latches are the pending latch filters

A latch is stored twice: in the latched components, and as a filter that waits for the next
key. The two agree (`Xkbcommon.LatchesPending`): every latched modifier is in the mask of a
pending filter, and the latched group is the sum of the deltas of the pending filters. So
when a key without an action is pressed, which breaks all pending latches, nothing stays
latched.

The agreement is kept by every single change: a filter call (`Xkbcommon.LatchStep`), the
start of an action and the tap of an out-of-band update. The rules of
`Xkbcommon.Rules` carry it to whole calls.
-/

namespace Xkbcommon

open Masks BitVec List XkbFilter Xkbcommon.Frame FilterFunc

variable {f : XkbFilter} {fr fr₀ fr' : Frame} {func : FilterFunc} {k : KeyRef} {i : ℕ}

/-- The modifiers of a pending modifier latch. -/
def XkbFilter.pendingMods (f : XkbFilter) : BitVec 32 :=
  if f.func = some .modLatch ∧ f.priv = latchPending then f.action.mods.mods.mask else 0#32

/-- The delta of a pending group latch. -/
def XkbFilter.pendingDelta (f : XkbFilter) : BitVec 32 :=
  if f.func = some .groupLatch ∧ groupLatchLatch f.priv = latchPending then groupLatchDelta f.priv
  else 0#32

theorem pendingMods_of_ne (h : f.func ≠ some .modLatch) : f.pendingMods = 0#32 :=
  if_neg fun hcon => h hcon.1

theorem pendingDelta_of_ne (h : f.func ≠ some .groupLatch) :
    f.pendingDelta = 0#32 := if_neg fun hcon => h hcon.1

/-- **The latches are the pending filters.** -/
structure LatchesPending (fr : Frame) : Prop where
  mods : ∀ b, fr.state.components.latchedMods.getLsbD b = true →
    ∃ f ∈ fr.state.filters, f.pendingMods.getLsbD b = true
  group : fr.state.components.latchedGroup = Slots.total XkbFilter.pendingDelta fr.state.filters

/-- Changes of other components keep the agreement. -/
theorem LatchesPending.congr (h : LatchesPending fr)
    (hfilters : fr'.state.filters = fr.state.filters)
    (hmods : fr'.state.components.latchedMods = fr.state.components.latchedMods)
    (hgroup : fr'.state.components.latchedGroup = fr.state.components.latchedGroup) :
    LatchesPending fr' := by
  refine ⟨fun b hb => ?_, ?_⟩
  · rw [hfilters]
    exact h.mods b (hmods ▸ hb)
  · rw [hfilters, hgroup, h.group]

/-! ### One filter -/

/-- **What a filter call does to the latches**: a modifier that is latched afterwards is
pending in the filter, or was latched before and not by the filter; the latched group
changes with the delta that is pending. -/
structure LatchStep (fr : Frame) (f : XkbFilter) (step : FilterStep) : Prop where
  mods : ∀ b, step.frame.state.components.latchedMods.getLsbD b = true →
    step.filter.pendingMods.getLsbD b = true ∨
    (fr.state.components.latchedMods.getLsbD b = true ∧ f.pendingMods.getLsbD b = false)
  group : step.frame.state.components.latchedGroup =
    fr.state.components.latchedGroup + (step.filter.pendingDelta - f.pendingDelta)

section Calls

variable {dir : KeyDirection} {step : FilterStep} {mask : BitVec 32}

/-- What `Xkbcommon.LatchStep` says about the modifiers. -/
def LatchedBy (fr : Frame) (f : XkbFilter) (step : FilterStep) : Prop :=
  ∀ b, step.frame.state.components.latchedMods.getLsbD b = true →
    step.filter.pendingMods.getLsbD b = true ∨
    (fr.state.components.latchedMods.getLsbD b = true ∧ f.pendingMods.getLsbD b = false)

/-! The ways in which a modifier latch may change. -/

theorem latched_kept (hmods : step.frame.state.components.latchedMods =
      fr.state.components.latchedMods) (hpending : step.filter.pendingMods = f.pendingMods) :
    LatchedBy fr f step := by
  intro b hb
  rw [hpending]
  rw [hmods] at hb
  cases hp : f.pendingMods.getLsbD b with
  | true => exact .inl rfl
  | false => exact .inr ⟨hb, rfl⟩

theorem latched_dropped
    (hmods : step.frame.state.components.latchedMods = fr.state.components.latchedMods &&& ~~~mask)
    (hpending : f.pendingMods = mask) : LatchedBy fr f step := by
  intro b hb
  have hlt := lt_of_getLsbD hb
  rw [hmods, getLsbD_and, getLsbD_not, Bool.and_eq_true] at hb
  rw [hpending]
  exact .inr ⟨hb.1, by simpa [hlt] using hb.2⟩

theorem latched_added
    (hmods : step.frame.state.components.latchedMods = fr.state.components.latchedMods ||| mask)
    (hpending : step.filter.pendingMods = mask) (hold : Sub f.pendingMods mask) :
    LatchedBy fr f step := by
  intro b hb
  rw [hmods, getLsbD_or, Bool.or_eq_true] at hb
  rw [hpending]
  rcases hb with hb | hb
  · cases hp : f.pendingMods.getLsbD b with
    | true => exact .inl (hold b hp)
    | false => exact .inr ⟨hb, rfl⟩
  · exact .inl hb

/-- A call that does nothing. -/
theorem latchStep_refl (result : FilterResult) : LatchStep fr f ⟨fr, f, result⟩ :=
  ⟨latched_kept rfl rfl, by rw [sub_self, add_zero]⟩

theorem latchStep_modLatch (hfunc : f.func = some .modLatch) :
    LatchStep fr f (xkbFilterModLatchFunc fr f k dir) := by
  have hdelta : ∀ f' : XkbFilter, f'.func ≠ some .groupLatch → fr.state.components.latchedGroup =
      fr.state.components.latchedGroup + (f'.pendingDelta - f.pendingDelta) := by
    intro f' hf'
    rw [pendingDelta_of_ne hf', pendingDelta_of_ne (by simp [hfunc]), sub_self, add_zero]
  have hpending : f.priv = latchPending → f.pendingMods = f.action.mods.mods.mask :=
    fun hp => if_pos ⟨hfunc, hp⟩
  have hidle : f.priv ≠ latchPending → f.pendingMods = 0#32 := fun hp => if_neg fun h => hp h.2
  unfold xkbFilterModLatchFunc
  cases dir with
  | repeated => exact latchStep_refl _
  | down =>
    dsimp only
    split
    · rename_i hdown
      have hnot : f.priv ≠ latchPending := by rw [hdown]; decide
      split
      · refine ⟨latched_kept rfl ?_, hdelta _ (by simp [hfunc])⟩
        rw [hidle hnot]
        exact if_neg fun hp => absurd hp.2 (show noLatch ≠ latchPending by decide)
      · exact latchStep_refl _
    · split
      · rename_i hpend
        split
        · -- the latch becomes a lock or a set
          refine ⟨latched_dropped ?_ (hpending hpend), ?_⟩
          · simp only [promoteModLatch, xkbFilterModLockNew, xkbFilterModSetNew]
            (repeat' split) <;> rfl
          · simp only [promoteModLatch, xkbFilterModLockNew, xkbFilterModSetNew]
            (repeat' split) <;> exact hdelta _ (by simp)
        · exact ⟨latched_dropped rfl (hpending hpend), hdelta _ (by simp)⟩
        · exact latchStep_refl _
      · exact latchStep_refl _
  | up =>
    dsimp only
    split
    · exact latchStep_refl _
    · split
      · -- the locks are cleared, and a pending latch with them
        by_cases hp : f.priv = latchPending
        · rw [if_pos hp]
          exact ⟨latched_dropped rfl (hpending hp), hdelta _ (by simp)⟩
        · rw [if_neg hp]
          exact ⟨latched_kept rfl (by rw [hidle hp]; exact pendingMods_of_ne (by simp)),
            hdelta _ (by simp)⟩
      · split
        · rename_i hno
          have hnot : f.priv ≠ latchPending := by rw [hno]; decide
          exact ⟨latched_kept rfl (by rw [hidle hnot]; exact pendingMods_of_ne (by simp)),
            hdelta _ (by simp)⟩
        · split
          · refine ⟨latched_added rfl (if_pos ⟨hfunc, rfl⟩) ?_, hdelta _ (by simp [hfunc])⟩
            unfold pendingMods
            split
            · exact .refl _
            · exact sub_zero_left _
          · exact latchStep_refl _

theorem latchStep_groupLatch (hfunc : f.func = some .groupLatch) :
    LatchStep fr f (xkbFilterGroupLatchFunc fr f k dir) := by
  have hmods : ∀ f' : XkbFilter, f'.func ≠ some .modLatch → f'.pendingMods = f.pendingMods :=
    fun f' hf' => (pendingMods_of_ne hf').trans (pendingMods_of_ne (by simp [hfunc])).symm
  have hpending : groupLatchLatch f.priv = latchPending →
      f.pendingDelta = groupLatchDelta f.priv := fun hp => if_pos ⟨hfunc, hp⟩
  have hidle : groupLatchLatch f.priv ≠ latchPending → f.pendingDelta = 0#32 :=
    fun hp => if_neg fun h => hp h.2
  -- what ends a pending latch takes its delta off the latched group
  have hdrop : ∀ f' : XkbFilter, f'.func ≠ some .groupLatch →
      groupLatchLatch f.priv = latchPending →
      fr.state.components.latchedGroup - groupLatchDelta f.priv =
        fr.state.components.latchedGroup + (f'.pendingDelta - f.pendingDelta) := by
    intro f' hf' hp
    rw [pendingDelta_of_ne hf', hpending hp]
    bv_omega
  have hsame : ∀ f' : XkbFilter, f'.pendingDelta = f.pendingDelta →
      fr.state.components.latchedGroup =
        fr.state.components.latchedGroup + (f'.pendingDelta - f.pendingDelta) := by
    intro f' h
    rw [h, sub_self, add_zero]
  unfold xkbFilterGroupLatchFunc
  cases dir with
  | repeated => exact latchStep_refl _
  | down =>
    dsimp only
    split
    · rename_i hdown
      have hnot : groupLatchLatch f.priv ≠ latchPending := by rw [hdown]; decide
      split
      · refine ⟨latched_kept rfl (hmods _ (by simp [hfunc])), hsame _ ?_⟩
        rw [hidle hnot]
        refine if_neg ?_
        rintro ⟨-, hp⟩
        rw [groupLatchLatch_priv (by decide)] at hp
        cases hp
      · exact latchStep_refl _
    · split
      · rename_i hpend
        split
        · simp only [xkbFilterGroupLockNew]
          split <;> exact ⟨latched_kept rfl (hmods _ (by simp)), hdrop _ (by simp) hpend⟩
        · exact ⟨latched_kept rfl (hmods _ (by simp)), hdrop _ (by simp) hpend⟩
        · exact latchStep_refl _
      · exact latchStep_refl _
  | up =>
    dsimp only
    split
    · exact latchStep_refl _
    · split
      · refine ⟨latched_kept rfl (hmods _ (by simp)), ?_⟩
        by_cases hp : groupLatchLatch f.priv = latchPending
        · simp only [mapComponents, hp, if_true]
          exact hdrop _ (by simp) hp
        · simp only [mapComponents, hp, if_false]
          exact hsame _ (by rw [hidle hp]; exact pendingDelta_of_ne (by simp))
      · split
        · rename_i hno
          have hnot : groupLatchLatch f.priv ≠ latchPending := by rw [hno]; decide
          exact ⟨latched_kept rfl (hmods _ (by simp)),
            hsame _ (by rw [hidle hnot]; exact pendingDelta_of_ne (by simp))⟩
        · split
          · rename_i hdown
            have hnot : groupLatchLatch f.priv ≠ latchPending := by rw [hdown]; decide
            refine ⟨latched_kept rfl (hmods _ (by simp [hfunc])), ?_⟩
            have hnew : pendingDelta
                { f with priv := groupLatchPriv latchPending (groupLatchDelta f.priv) } =
                  groupLatchDelta f.priv := by
              rw [pendingDelta, if_pos ⟨hfunc, groupLatchLatch_priv (by decide)⟩]
              exact groupLatchDelta_priv_delta (by decide) _
            rw [hnew, hidle hnot, BitVec.sub_zero]
            rfl
          · exact latchStep_refl _

/-- **What a filter call does to the latches**, unless it clears them all. -/
theorem latchStep_call (hfunc : f.func = some func) : LatchStep fr f (func.call id fr f k dir) := by
  by_cases hmod : func = .modLatch
  · subst hmod
    exact latchStep_modLatch hfunc
  by_cases hgroup : func = .groupLatch
  · subst hgroup
    exact latchStep_groupLatch hfunc
  have hw := call_writes fr hfunc k dir
  have hne : f.func ≠ some .modLatch ∧ f.func ≠ some .groupLatch := by simp [hfunc, hmod, hgroup]
  refine ⟨latched_kept (hw.latchedMods hmod) ?_, ?_⟩
  · rw [pendingMods_of_ne (hw.func_ne hmod (.inr (.inr rfl))), pendingMods_of_ne hne.1]
  · rw [pendingDelta_of_ne (hw.func_ne hgroup (.inr (.inl rfl))), pendingDelta_of_ne hne.2,
      hw.latchedGroup hgroup, sub_self, add_zero]

end Calls

/-- A filter call keeps the agreement, unless it clears all latches. -/
theorem LatchesPending.store (h : LatchesPending fr) (hf : fr.state.filters[i]? = some f)
    {step : FilterStep} (hfilters : step.frame.state.filters = fr.state.filters)
    (hstep : LatchStep fr f step) : LatchesPending (step.store i) := by
  have hlt := (List.getElem?_eq_some_iff.mp hf).1
  refine ⟨fun b hb => ?_, ?_⟩
  · show ∃ g ∈ step.frame.state.filters.set i step.filter, _
    rw [hfilters]
    rcases hstep.mods b hb with hnew | ⟨hold, hnot⟩
    · exact ⟨step.filter, mem_set hlt _, hnew⟩
    · -- the modifier is pending in another slot
      obtain ⟨g, hg, hgb⟩ := h.mods b hold
      obtain ⟨j, hj⟩ := getElem?_of_mem hg
      have hne : i ≠ j := by
        rintro rfl
        obtain rfl := Option.some.inj (hf.symm.trans hj)
        exact absurd (hnot.symm.trans hgb) Bool.false_ne_true
      exact ⟨g, mem_of_getElem? ((getElem?_set_ne hne).trans hj), hgb⟩
  · show step.frame.state.components.latchedGroup =
      Slots.total pendingDelta (step.frame.state.filters.set i step.filter)
    rw [hfilters, Slots.total_set hf, ← h.group]
    exact hstep.group

/-- A filter that is put into a free slot keeps the agreement, if it is pending for what is
latched with it. -/
theorem LatchesPending.put (h : LatchesPending fr)
    (hfilters :
      fr'.state.filters = Slots.put fr.state.filters (Slots.firstFree busy fr.state.filters) f)
    (hmods : ∀ b, fr'.state.components.latchedMods.getLsbD b = true →
      fr.state.components.latchedMods.getLsbD b = true ∨ f.pendingMods.getLsbD b = true)
    (hgroup : fr'.state.components.latchedGroup =
      fr.state.components.latchedGroup + f.pendingDelta) :
    LatchesPending fr' := by
  have hle : Slots.firstFree busy fr.state.filters ≤ fr.state.filters.length :=
    Slots.firstFree_le_length
  refine ⟨fun b hb => ?_, ?_⟩
  · rw [hfilters]
    rcases hmods b hb with hold | hnew
    · obtain ⟨g, hg, hgb⟩ := h.mods b hold
      have hbusy : g.busy = true := by
        by_contra hfree
        have hnone : g.func = none := by simpa [busy] using hfree
        rw [pendingMods_of_ne (by simp [hnone])] at hgb
        exact absurd hgb (by simp)
      obtain ⟨j, hj⟩ := Slots.exists_busyAt_of_mem hg hbusy
      have hput : Slots.busyAt busy (Slots.put fr.state.filters
          (Slots.firstFree busy fr.state.filters) f) j = some g := by
        rw [Slots.busyAt_put hle, if_neg, hj]
        rintro rfl
        cases hj.symm.trans Slots.busyAt_firstFree
      exact ⟨g, Slots.mem_of_busyAt hput, hgb⟩
    · exact ⟨f, mem_of_getElem? (Slots.getElem?_put hle), hnew⟩
  · rw [hfilters, hgroup, h.group]
    refine (Slots.total_put_firstFree (fun g hg => pendingDelta_of_ne ?_)).symm
    have hnone : g.func = none := by simpa [busy] using hg
    simp [hnone]

/-- Starting a filter keeps the agreement. -/
theorem LatchesPending.startFilter (h : LatchesPending fr) (key : KeyAddr) (action : XkbAction)
    (func : FilterFunc) : LatchesPending (fr.startFilter key action func).1 := by
  obtain ⟨f₀, -, -, hfunc, -, heq⟩ := startFilter_eq fr key func
  rw [heq]
  refine h.put rfl (fun b hb => ?_) ?_
  · by_cases hmod : func = .modLatch
    · subst hmod
      revert hb
      simp only [start, xkbFilterModLatchNew]
      split
      · exact fun hb => .inl hb
      · split
        · intro hb
          -- a latch set to trigger on press is pending at once
          rw [mapComponents, getLsbD_or, Bool.or_eq_true] at hb
          refine hb.imp_right fun hb => ?_
          rw [pendingMods, if_pos ⟨hfunc, rfl⟩]
          exact hb
        · exact fun hb => .inl hb
    · exact .inl ((start_writes func fr hfunc).latchedMods hmod ▸ hb)
  · by_cases hgroup : func = .groupLatch
    · subst hgroup
      have hidle : (groupLatch.start fr f₀).2.pendingDelta = 0#32 := by
        refine if_neg ?_
        rintro ⟨-, hp⟩
        simp only [start, xkbFilterGroupLatchNew] at hp
        rw [groupLatchLatch_priv (by decide)] at hp
        cases hp
      rw [hidle, BitVec.add_zero]
      rfl
    · have hw := start_writes func fr hfunc
      rw [pendingDelta_of_ne (hw.func_ne hgroup (.inr (.inl rfl))), BitVec.add_zero]
      exact hw.latchedGroup hgroup

/-- Tapping a latch keeps the agreement. -/
theorem LatchesPending.tapLatch (h : LatchesPending fr) {a : XkbAction} (ha : TapAction a func) :
    LatchesPending (fr.tapLatch a func) := by
  cases ha with
  | mod mask =>
    obtain ⟨f, -, hfunc, hpriv, -, haction, heq⟩ := tapLatch_mod mask
    rw [heq]
    refine h.put rfl (fun b hb => ?_) ?_
    · dsimp only at hb
      rw [getLsbD_or, Bool.or_eq_true] at hb
      rw [pendingMods, if_pos ⟨hfunc, hpriv⟩, haction]
      exact hb
    · rw [pendingDelta_of_ne (by simp [hfunc]), BitVec.add_zero]
  | group group =>
    obtain ⟨f, delta, hdelta, -, hfunc, hpriv, -, -, heq⟩ := tapLatch_group group
    rw [heq]
    refine h.put rfl (fun b hb => .inl hb) ?_
    have hread : groupLatchDelta (groupLatchPriv latchPending delta) = delta := by
      rw [hdelta]
      exact groupLatchDelta_priv_delta (by decide) _
    rw [pendingDelta, hpriv, if_pos ⟨hfunc, groupLatchLatch_priv (by decide)⟩, hread]

/-! ### Whole calls -/

variable (km : XkbKeymap)

/-- **An out-of-band update keeps the agreement.** -/
theorem LatchesPending.latchedLocked (h : LatchesPending fr) (update : XkbStateComponentsUpdate) :
    LatchesPending (stateUpdateLatchedLocked km fr update) := by
  refine latchedLocked_invariant (P := LatchesPending) ?_ ?_ ?_ ?_ h
  · exact fun fr' h => h.congr rfl rfl rfl
  · intro fr' m h
    refine ⟨fun b hb => h.mods b ?_, h.group⟩
    dsimp only [mapComponents] at hb
    rw [getLsbD_and, Bool.and_eq_true] at hb
    exact hb.1
  · intro k i fr' f func _ h hf hfunc
    exact h.store hf (local_call func fr' f k .down).filters (latchStep_call hfunc)
  · exact fun fr' a func ha _ h => h.tapLatch ha

/-- A filter call keeps the agreement, the clearing of all latches included. -/
theorem LatchesPending.call_store {dir : KeyDirection} (h : LatchesPending fr) (hok : SlotsOk fr)
    (hf : fr.state.filters[i]? = some f) (hfunc : f.func = some func) :
    LatchesPending ((func.call (clearAllLatchesAndLocks km) fr f k dir).store i) := by
  rcases call_cases (clearAllLatchesAndLocks km) func fr f k dir with
    heq | ⟨rfl, -, controls, -, -, heq⟩ <;> rw [heq]
  · exact h.store hf (local_call func fr f k dir).filters (latchStep_call hfunc)
  · have hok' : SlotsOk (fr.setControls controls) := hok.mapComponents _
    have h' : LatchesPending (fr.setControls controls) := h.congr rfl rfl rfl
    have hslot : (fr.setControls controls).slot i = some f := slot_of_func hf hfunc
    rcases (quiet_clearAllLatchesAndLocks km hok').2.slot i with ⟨g, g', hg, hg', hq⟩ | ⟨hpend, -⟩
    · -- the control filter has no part in the latches, in its old and in its new state
      obtain rfl := Option.some.inj (hslot.symm.trans hg)
      have hne : g'.func ≠ some .modLatch ∧ g'.func ≠ some .groupLatch := by simp [hq.func, hfunc]
      refine (h'.latchedLocked km _).store (slot_eq_some_iff.mp hg').1 rfl ⟨latched_kept rfl ?_, ?_⟩
      · rw [pendingMods_of_ne hne.1, pendingMods_of_ne (by simp)]
      · rw [pendingDelta_of_ne hne.2, pendingDelta_of_ne (by simp), sub_self, add_zero]
        rfl
    · rcases hpend f hslot with ⟨hm, -⟩ | ⟨hm, -⟩ <;> exact absurd (hfunc.symm.trans hm) (by simp)

/-! The end of an event leaves the latches alone. -/

theorem latchedMods_applyMasks :
    (fr.applyMasks km).state.components.latchedMods = fr.state.components.latchedMods := by
  have hc := congrArg StateComponents.latchedMods (updateBaseMods_components fr.state)
  exact hc

theorem latchedGroup_applyMasks :
    (fr.applyMasks km).state.components.latchedGroup = fr.state.components.latchedGroup := by
  have hc := congrArg StateComponents.latchedGroup (updateBaseMods_components fr.state)
  exact hc

/-- **A key event keeps the agreement.** -/
theorem LatchesPending.handleKey (h : LatchesPending fr) (hok : SlotsOk fr)
    (hk : k.addr.canHold = true) (dir : KeyDirection) : LatchesPending (handleKey km fr k dir) := by
  have hrun : SlotsOk (xkbFilterApplyAll km fr.resetMasks k dir) ∧
      LatchesPending (xkbFilterApplyAll km fr.resetMasks k dir) := by
    refine applyAllWith_invariant (P := fun fr => SlotsOk fr ∧ LatchesPending fr) ?_ ?_
      ⟨hok, h.congr rfl rfl rfl⟩
    · rintro i fr' f func ⟨hok', h'⟩ hf hfunc
      exact ⟨(callStored_call km hk hok' hf hfunc dir).slotsOk, h'.call_store km hok' hf hfunc⟩
    · rintro - fr' a func - - ⟨hok', h'⟩ - -
      exact ⟨hok'.startFilter hk _ func, h'.startFilter _ _ func⟩
  rw [handleKey_eq]
  exact hrun.2.congr (updateBaseMods_filters _) (latchedMods_applyMasks ..)
    (latchedGroup_applyMasks ..)

/-! ### A key without an action -/

/-- The current level of a key has no action. -/
def levelIsEmpty (state : XkbState) (key : XkbKey) : Bool :=
  match stateKeyGetLayout state key with
  | none => true
  | some layout =>
    match stateKeyGetLevel state key layout with
    | none => true
    | some level => (xkbKeymapKeyGetActionsByLevel key layout level).isEmpty

theorem xkbKeyGetActions_of_levelIsEmpty {state : XkbState} {key : XkbKey}
    (h : levelIsEmpty state key = true) : xkbKeyGetActions state key = [dummyAction] := by
  unfold xkbKeyGetActions
  unfold levelIsEmpty at h
  cases hlayout : stateKeyGetLayout state key with
  | none => rfl
  | some layout =>
    rw [hlayout] at h
    dsimp only at h ⊢
    cases hlevel : stateKeyGetLevel state key layout with
    | none => rfl
    | some level =>
      rw [hlevel] at h
      dsimp only at h ⊢
      rw [List.isEmpty_iff.mp h]

/-- The press of a key without an action leaves no filter pending: it breaks the latches that
are, and makes none. -/
theorem not_pending_call {clearAll : Frame → Frame} (hfunc : f.func = some func)
    (hactions : xkbKeyGetActions fr.state.toXkbState k.key = [dummyAction]) :
    ¬Pending (func.call clearAll fr f k .down).filter := by
  by_cases hmod : func = .modLatch
  · subst hmod
    have hverdict : ∀ sticky, modLatchVerdict f.action.mods sticky [dummyAction] = .breaks :=
      fun _ => rfl
    have hkeep : f.priv ≠ latchPending → ¬Pending f := by
      rintro hp (⟨-, h⟩ | ⟨h, -⟩)
      · exact hp h
      · cases hfunc.symm.trans h
    simp only [call, xkbFilterModLatchFunc, hactions, hverdict]
    split
    · rename_i hdown
      split
      · rintro (⟨-, h⟩ | ⟨h, -⟩)
        · exact absurd h (show noLatch ≠ latchPending by decide)
        · cases hfunc.symm.trans h
      · exact hkeep (by rw [hdown]; decide)
    · split
      · simp [Pending]
      · rename_i hp
        exact hkeep hp
  by_cases hgroup : func = .groupLatch
  · subst hgroup
    have hverdict : ∀ sticky, groupLatchVerdict f.action.group sticky [dummyAction] = .breaks :=
      fun _ => rfl
    have hkeep : groupLatchLatch f.priv ≠ latchPending → ¬Pending f := by
      rintro hp (⟨h, -⟩ | ⟨-, h⟩)
      · cases hfunc.symm.trans h
      · exact hp h
    simp only [call, xkbFilterGroupLatchFunc, hactions, hverdict]
    split
    · rename_i hdown
      split
      · rintro (⟨h, -⟩ | ⟨-, h⟩)
        · cases hfunc.symm.trans h
        · rw [groupLatchLatch_priv (by decide)] at h
          cases h
      · exact hkeep (by rw [hdown]; decide)
    · split
      · simp [Pending]
      · rename_i hp
        exact hkeep hp
  rw [call_eq_of_ne_up (by decide)]
  have hw := call_writes fr hfunc k .down
  rintro (⟨h, -⟩ | ⟨h, -⟩)
  · exact hw.func_ne hmod (.inr (.inr rfl)) h
  · exact hw.func_ne hgroup (.inr (.inl rfl)) h

/-- The filters in the slots before `i` are not pending, in the loop over the slots that
started from `fr₀`. -/
structure UnpendingBelow (fr₀ : Frame) (i : ℕ) (fr : Frame) : Prop where
  foot : Footprint fr₀ fr
  length : fr.state.filters.length = fr₀.state.filters.length
  below : ∀ j < i, ∀ f, fr.state.filters[j]? = some f → ¬Pending f

theorem UnpendingBelow.skip (h : UnpendingBelow fr₀ i fr) (hf : fr.state.filters[i]? = some f)
    (hfunc : f.func = none) : UnpendingBelow fr₀ (i + 1) fr := by
  refine ⟨h.foot, h.length, fun j hj g hg => ?_⟩
  rcases Nat.lt_succ_iff_lt_or_eq.mp hj with hj | rfl
  · exact h.below j hj g hg
  · obtain rfl := Option.some.inj (hf.symm.trans hg)
    simp [Pending, hfunc]

theorem UnpendingBelow.call (h : UnpendingBelow fr₀ i fr)
    (hactions : xkbKeyGetActions fr₀.state.toXkbState k.key = [dummyAction])
    (hf : fr.state.filters[i]? = some f) (hfunc : f.func = some func) :
    UnpendingBelow fr₀ (i + 1) ((func.call (clearAllLatchesAndLocks km) fr f k .down).store i) := by
  have hfilters : (func.call (clearAllLatchesAndLocks km) fr f k .down).frame.state.filters =
      fr.state.filters := by
    rw [call_eq_of_ne_up (by decide), (local_call func fr f k .down).filters]
  have hbroken : ¬Pending (func.call (clearAllLatchesAndLocks km) fr f k .down).filter :=
    not_pending_call hfunc ((h.foot.xkbKeyGetActions k.key).trans hactions)
  have hcall := footprint_call (footprint_clearAllLatchesAndLocks km) func fr f k .down
  generalize func.call (clearAllLatchesAndLocks km) fr f k .down = step at *
  refine ⟨(h.foot.trans hcall).setFilter i _, ?_, fun j hj g hg => ?_⟩
  · rw [FilterStep.store, setFilter, length_set, hfilters, h.length]
  · rw [FilterStep.store, setFilter, hfilters, getElem?_set] at hg
    rcases Nat.lt_succ_iff_lt_or_eq.mp hj with hj | rfl
    · rw [if_neg (by omega)] at hg
      exact h.below j hj g hg
    · rw [if_pos rfl, if_pos (List.getElem?_eq_some_iff.mp hf).1] at hg
      obtain rfl := Option.some.inj hg
      exact hbroken

/-- **The press of a key without an action breaks all latches.** -/
theorem not_pending_xkbFilterApplyAll
    (hactions : xkbKeyGetActions fr₀.state.toXkbState k.key = [dummyAction]) :
    ∀ f ∈ (xkbFilterApplyAll km fr₀ k .down).state.filters, ¬Pending f := by
  obtain ⟨i, fr, c, ⟨hfoot, hlen, hdone⟩, hend, hcase⟩ := applyAllWith_cases km
    (P := fun i fr _ => UnpendingBelow fr₀ i fr) (fun i fr c f h hf hfunc => h.skip hf hfunc)
    (fun i fr c f func h hf hfunc => h.call km hactions hf hfunc)
    ⟨.refl fr₀, rfl, fun j hj => absurd hj (Nat.not_lt_zero j)⟩
  have hnone : ∀ f ∈ fr.state.filters, ¬Pending f := by
    intro f hf
    obtain ⟨j, hj⟩ := getElem?_of_mem hf
    have := (List.getElem?_eq_some_iff.mp hj).1
    exact hdone j (by omega) f hj
  rcases hcase with ⟨-, heq⟩ | ⟨-, -, heq⟩
  · rw [xkbFilterApplyAll, heq]
    exact hnone
  · -- the dummy action has no handler
    rw [hfoot.xkbKeyGetActions, hactions] at heq
    rw [xkbFilterApplyAll, heq]
    exact hnone

/-- Without pending filters nothing is latched. -/
theorem LatchesPending.latched_eq_zero (h : LatchesPending fr)
    (hnone : ∀ f ∈ fr.state.filters, ¬Pending f) :
    fr.state.components.latchedMods = 0#32 ∧ fr.state.components.latchedGroup = 0#32 := by
  constructor
  · refine eq_of_getLsbD_eq fun b _ => ?_
    rw [getLsbD_zero]
    by_contra hb
    obtain ⟨f, hf, hfb⟩ := h.mods b (by simpa using hb)
    unfold pendingMods at hfb
    split at hfb
    · rename_i hp
      exact hnone f hf (.inl hp)
    · exact absurd hfb (by simp)
  · rw [h.group]
    refine Slots.total_eq_zero fun f hf => if_neg fun hp => ?_
    exact hnone f hf (.inr hp)

/-! ### Runs -/

/-- The modifiers of the pending modifier latches of a server state. -/
def XkbServerState.pendingMods (s : XkbServerState) : BitVec 32 :=
  s.filters.foldr (fun f mods => f.pendingMods ||| mods) 0#32

/-- The sum of the deltas of the pending group latches of a server state. -/
def XkbServerState.pendingGroup (s : XkbServerState) : BitVec 32 :=
  Slots.total XkbFilter.pendingDelta s.filters

theorem sub_pendingMods {s : XkbServerState} (hf : f ∈ s.filters) :
    Sub f.pendingMods s.pendingMods := by
  unfold XkbServerState.pendingMods
  generalize s.filters = filters at hf
  induction filters with
  | nil => cases hf
  | cons g filters ih =>
    rcases mem_cons.mp hf with rfl | hf
    · exact sub_or_left _ _
    · exact (ih hf).trans (sub_or_right _ _)

/-- **The agreement holds along every run.** -/
theorem latchesPending_serverRun (m : LegacyMode) {cs : List ServerCall}
    (hcs : ∀ c ∈ cs, c.isKeyOrLatch = true) : LatchesPending ⟨serverRun km m cs, none⟩ := by
  refine serverRun_invariant (P := fun s => LatchesPending ⟨s, none⟩) hcs ?_ ?_ ?_
  · refine ⟨fun b hb => ?_, rfl⟩
    have hzero : (legacyStateNew km m).components.latchedMods = 0#32 := rfl
    rw [hzero] at hb
    exact absurd hb (by simp)
  · intro pre kc dir k _ hk ih
    have hok : SlotsOk ⟨serverRun km m pre, none⟩ := (serverReachable_serverRun km m pre).filtersOk
    exact (ih.handleKey km hok (canHold_of_keyOf (keyOf_of_eventKey hk)) dir).congr rfl rfl rfl
  · intro pre update ih
    exact (ih.latchedLocked km update).congr rfl rfl rfl

/-- **Latches are exactly the pending latch filters**: along every run of key events and
requests to latch and lock, the latched modifiers are among those of the pending filters, the
latched group is the sum of their deltas, and the press of a key whose level has no action
leaves nothing latched. -/
theorem latches_are_pending (km : XkbKeymap) (m : LegacyMode) {cs : List ServerCall}
    (hcs : ∀ c ∈ cs, c.isKeyOrLatch = true) :
    Sub (serverRun km m cs).components.latchedMods (serverRun km m cs).pendingMods ∧
      (serverRun km m cs).components.latchedGroup = (serverRun km m cs).pendingGroup ∧
      ∀ kc k, keyOf km kc = some k → levelIsEmpty (serverRun km m cs).toXkbState k.key = true →
        (serverRun km m (cs ++ [.updateKey kc .down])).components.latchedMods = 0#32 ∧
        (serverRun km m (cs ++ [.updateKey kc .down])).components.latchedGroup = 0#32 := by
  have h := latchesPending_serverRun km m hcs
  refine ⟨fun b hb => ?_, h.group, fun kc k hk hempty => ?_⟩
  · obtain ⟨f, hf, hfb⟩ := h.mods b hb
    exact sub_pendingMods hf b hfb
  · have hnext : LatchesPending ⟨serverRun km m (cs ++ [.updateKey kc .down]), none⟩ := by
      refine latchesPending_serverRun km m fun c hc => ?_
      rcases mem_append.mp hc with hc | hc
      · exact hcs c hc
      · rw [mem_singleton.mp hc]
        rfl
    refine hnext.latched_eq_zero ?_
    obtain ⟨hflags, hmode, -⟩ := serverRun_setup hcs
    have hserver : ¬(serverRun km m cs).isServer = false := by
      rw [XkbState.isServer, hmode]
      cases m <;> decide
    have hevent : eventKey km kc .down = some k := by rw [eventKey, hk]; rfl
    rw [serverRun_append_singleton]
    simp only [ServerCall.exec, xkbStateUpdateKey, if_neg hserver, hevent,
      autoDisableStickyKeys_of_not (disablesStickyKeys_of_flags hflags), handleKey_eq,
      Frame.applyMasks, Frame.updateDerived, Frame.mapComponents, updateBaseMods_filters]
    exact not_pending_xkbFilterApplyAll km (xkbKeyGetActions_of_levelIsEmpty hempty)

/-- Keys that latch the first modifier and the next group, and one without an action. -/
def tapKeymap : XkbKeymap where
  maxKeyCode := 2
  numKeysLow := 3
  keys := [oneLevelKey 0 [latchMods 1#32], oneLevelKey 1 [nextGroup .groupLatch], oneLevelKey 2 []]
  numGroups := 2

/-- Taps of the two latching keys of `Xkbcommon.tapKeymap`, and a request to latch the second
modifier. -/
def tapCalls : List ServerCall :=
  [.updateKey 0 .down, .updateKey 0 .up, .updateKey 1 .down, .updateKey 1 .up,
    .updateLatchedLocked 2#32 2#32 false 0#32 0#32 0#32 false 0#32]

/-- The latches of the taps are pending, and the key without an action breaks them. -/
theorem latches_are_pending_taps :
    (serverRun tapKeymap .mixed tapCalls).components.latchedMods = 3#32 ∧
      (serverRun tapKeymap .mixed tapCalls).pendingMods = 3#32 ∧
      (serverRun tapKeymap .mixed tapCalls).components.latchedGroup = 1#32 ∧
      (serverRun tapKeymap .mixed
        (tapCalls ++ [.updateKey 2 .down])).components.latchedMods = 0#32 ∧
      (serverRun tapKeymap .mixed
        (tapCalls ++ [.updateKey 2 .down])).components.latchedGroup = 0#32 := by
  obtain ⟨-, hgroup, hbreak⟩ := latches_are_pending tapKeymap .mixed
    (show ∀ c ∈ tapCalls, c.isKeyOrLatch = true by decide)
  refine ⟨by decide +kernel, by decide +kernel, hgroup.trans (by decide +kernel), ?_⟩
  exact hbreak 2 ⟨.key 2, oneLevelKey 2 []⟩ (by decide) (by decide +kernel)

end Xkbcommon
